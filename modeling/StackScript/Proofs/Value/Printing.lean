import Mathlib.Data.List.Forall2
import StackScript.Proofs.Expression.Evaluation
import StackScript.Proofs.Program.Beginnings
import StackScript.Proofs.Session.Soundness
import StackScript.Proofs.Value.Raw

/-!
# Printed values are programs

**Theorem.** Null, booleans, integers, texts without a quote, and arrays of such values to any depth
print as programs that compute them. The texts of a host may be any bytes: the program computes what
is read of them, and that is the same value exactly if all of them are well formed.

A printed value is scanned up to a comma, a closing bracket or the end of the text, whatever stands
behind that (`Scanned`). Its tokens are a primary, and the code of the primary puts the value on the
stack (`Expr.Pushes`). Both are shown for the leaves and carried through arrays.

A negative integer is one word because a sign behind no operand belongs to the number: at the
beginning of the text, behind an opening bracket and behind a comma.
-/

namespace StackScript

open StackScript.Action StackScript.Number StackScript.Text

/-- The values that can be written in a program. -/
inductive Value.Writable : Value → Prop
  | null : Writable .null
  | bool (b : Bool) : Writable (.bool b)
  | int (n : Int64) : Writable (.int n)
  | text {s : String} : '"' ∉ s.toList → Writable (.text s)
  | array {vs : List Value} : (∀ v ∈ vs, Writable v) → Writable (.array vs)

/-! ## What is pushed -/

namespace Expr

/-- The code of an expression puts a value on the stack and goes on. -/
def Pushes (e : Expr) (v : Value) : Prop :=
  ∀ (n : Nat) (m : Machine), m.floor ≤ m.stack.height →
    ∃ m', exec (n + 1) e.code m = .ok .next m' ∧ m'.stack.live = v :: m.stack.live ∧
      m'.frames = m.frames

theorem pushes_literal (t : Token) : Pushes (.literal t) t.literal :=
  fun _ _ _ => ⟨_, rfl, rfl, rfl⟩

/-- The values of expressions one after the other, the last one on top. -/
theorem pushes_all {es : List Expr} {vs : List Value} (h : List.Forall₂ Pushes es vs) (n : Nat) :
    ∀ m : Machine, m.floor ≤ m.stack.height →
      ∃ m', exec (n + 1) (codeAll es) m = .ok .next m' ∧
        m'.stack.live = vs.reverse ++ m.stack.live ∧ m'.frames = m.frames := by
  induction h with
  | nil => exact fun m _ => ⟨m, rfl, rfl, rfl⟩
  | @cons e v es vs he _ ih =>
    intro m hfloor
    obtain ⟨m₁, hfirst, hlive₁, hframes₁⟩ := he n m hfloor
    have hfloor₁ : m₁.floor ≤ m₁.stack.height := by
      rw [Machine.floor, ValueStack.height, hframes₁, hlive₁]
      exact Nat.le_succ_of_le hfloor
    obtain ⟨m₂, hrest, hlive₂, hframes₂⟩ := ih m₁ hfloor₁
    refine ⟨m₂, ?_, by rw [hlive₂, hlive₁]; simp, hframes₂.trans hframes₁⟩
    rw [codeAll, exec_append, bind_of_ok hfirst]
    exact hrest

theorem pushes_array {es : List Expr} {vs : List Value} (bracket : Token)
    (h : List.Forall₂ Pushes es vs) : Pushes (.array bracket es) (.array vs) := by
  intro n m hfloor
  obtain ⟨m₁, hexec, hlive, hframes⟩ := pushes_all h n m hfloor
  let i : Instruction := .array es.length bracket.pos
  have henough : ¬ Machine.argc { m₁ with last := some i } < (es.length : Int) := by
    simp only [Machine.argc, Machine.floor, ValueStack.height, hframes, hlive, h.length_eq,
      List.length_append, List.length_reverse]
    have hbelow : m.frames.headD 0 ≤ m.stack.live.length := hfloor
    omega
  let built : Machine :=
    { m₁ with
      last := some i
      stack := (m₁.stack.lowerBy es.length).push (.array (m₁.stack.topmost es.length)) }
  have hbuild : exec (n + 1) [i] m₁ = .ok .next built := by
    refine exec_cons_ok_iff.2 (.inl ⟨built, ?_, rfl⟩)
    show (buildArray es.length >>= fun _ => pure Signal.next) _ = _
    rw [bind_apply, buildArray_apply, if_neg henough]
    rfl
  refine ⟨built, ?_, ?_, hframes⟩
  · rw [code, exec_append, bind_of_ok hexec]
    exact hbuild
  · show Value.array (m₁.stack.topmost es.length) :: (m₁.stack.lowerBy es.length).live = _
    rw [ValueStack.topmost, ValueStack.live_lowerBy, hlive, h.length_eq]
    simp

end Expr

/-! ## Scanning up to a comma or a closing bracket -/

/-- Behind a printed value the text ends, or a comma or a closing bracket follows. -/
def EndsValue (rest : List Char) : Prop := ∀ c ∈ rest.head?, c = ',' ∨ c = ']'

/-- The text `cs` stands for the value `v` wherever no operand is in front of it: it is scanned as a
primary that pushes the value. -/
def Scanned (cs : List Char) (v : Value) : Prop :=
  ∀ ⦃before : Option Token⦄ ⦃pos : Position⦄ ⦃rest : List Char⦄,
    signsBehind before = true → EndsValue rest →
    ∃ ts e last pos', scanFrom false before pos (cs ++ rest) =
        (scanFrom false (some last) pos' rest).map (ts ++ ·) ∧
      Expr.Derives .indexable ts e ∧ e.Pushes v

section Scan

variable {before : Option Token} {pos : Position} {c : Char} {cs rest : List Char}

theorem takeWhile_word (hcs : ∀ d ∈ cs, isWordChar d = true) (hrest : EndsValue rest) :
    (cs ++ rest).takeWhile isWordChar = cs := by
  rw [List.takeWhile_append_of_pos hcs]
  cases rest with
  | nil => simp
  | cons d rest =>
    have hd : isWordChar d = false := by
      rcases hrest d rfl with rfl | rfl <;> decide
    simp [hd]

/-- A word that is classified as a literal. -/
theorem scanned_word {v : Value} (hcs : ∀ d ∈ cs, isWordChar d = true)
    (hlexeme : ∀ rest, lexeme true c (cs ++ rest) =
      (.word, ((cs ++ rest).takeWhile isWordChar).length))
    (hclass : ∀ pos, classify (c :: cs) pos = .ok ⟨.value, String.ofList (c :: cs), v, pos⟩) :
    Scanned (c :: cs) v := by
  intro before pos rest hsigns hrest
  let t : Token := ⟨.value, String.ofList (c :: cs), v, pos⟩
  have hword : lexeme (signsBehind before) c (cs ++ rest) = (.word, cs.length) := by
    rw [hsigns, hlexeme, takeWhile_word hcs hrest]
  have htoken : Lexeme.word.token? false (c :: cs) pos = .ok (some t) := by
    rw [Lexeme.token?, hclass]
    rfl
  exact ⟨[t], .literal t, t, _, scanFrom_token hword htoken, .literal rfl, Expr.pushes_literal t⟩

/-! ## Leaves -/

theorem scanned_null : Scanned Value.null.render.toList .null :=
  scanned_word (List.all_eq_true.1 rfl) (fun _ => lexeme_word true (by decide)) fun _ => rfl

theorem scanned_bool (b : Bool) : Scanned (Value.bool b).render.toList (.bool b) := by
  cases b
  all_goals
    exact scanned_word (List.all_eq_true.1 rfl) (fun _ => lexeme_word true (by decide)) fun _ => rfl

/-- Digits are read as the number they were written from. -/
theorem decimalValue?_eq (hcs : ∀ d ∈ cs, d.isDigit = true) :
    ∀ acc, decimalValue? acc cs = some (Nat.ofDigitChars 10 cs acc) := by
  induction cs with
  | nil => exact fun acc => rfl
  | cons d cs ih =>
    intro acc
    obtain ⟨hd, hcs⟩ := List.forall_mem_cons.1 hcs
    rw [decimalValue?, digit?, if_pos hd, Option.bind_some, ih hcs, Nat.ofDigitChars_cons]
    rfl

/-- The digits of a number, taken apart at the first one. -/
theorem toDigits_cons (n : Nat) : ∃ d ds, Nat.toDigits 10 n = d :: ds ∧ d.isDigit = true ∧
    (∀ c ∈ ds, c.isDigit = true) ∧ decimalValue? 0 (d :: ds) = some n := by
  obtain ⟨d, ds, hds⟩ := List.exists_cons_of_ne_nil (Nat.toDigits_ne_nil (n := n) (b := 10))
  have hdigits : ∀ c ∈ d :: ds, c.isDigit = true := fun c hc =>
    Nat.isDigit_of_mem_toDigits (by decide) (by decide) (hds ▸ hc)
  refine ⟨d, ds, hds, hdigits d (by simp), fun c hc => hdigits c (by simp [hc]), ?_⟩
  rw [decimalValue?_eq hdigits, ← hds, Nat.ofDigitChars_ten_toDigits]

/-- A number word is a literal. -/
theorem classify_int {n : Int64} (hlooks : looksNumeric (c :: cs) = true)
    (hint : intWord? (c :: cs) = some n) (pos : Position) :
    classify (c :: cs) pos = .ok ⟨.value, String.ofList (c :: cs), .int n, pos⟩ := by
  simp [classify, hlooks, numberWord?, hint]

/-- A digit stands for itself: it is neither a sign nor a point. -/
theorem looksNumeric_digit (hc : c.isDigit = true) : looksNumeric (c :: cs) = true := by
  obtain ⟨-, hminus, -, hpoint⟩ := isWordChar_of_isDigit hc
  simp [looksNumeric, hminus, hpoint, hc]

theorem splitSign_digit (hc : c.isDigit = true) : splitSign (c :: cs) = (false, c :: cs) := by
  obtain ⟨-, hminus, hplus, -⟩ := isWordChar_of_isDigit hc
  simp [splitSign, hminus, hplus]

theorem scanned_int (n : Int64) : Scanned (Value.int n).render.toList (.int n) := by
  rw [Value.render, Int.toString_eq_repr, Int.repr_eq_if]
  by_cases hsign : 0 ≤ n.toInt
  · obtain ⟨d, ds, hds, hd, hdigits, hvalue⟩ := toDigits_cons n.toInt.toNat
    rw [if_pos hsign, Nat.repr_eq_ofList_toDigits, hds, String.toList_ofList]
    have hint : intWord? (d :: ds) = some n := by
      have hbound : n.toInt.toNat < 2 ^ 63 := by
        have := n.toInt_lt
        omega
      simp only [intWord?, splitSign_digit hd, hvalue, List.isEmpty_cons, Option.bind_some,
        if_pos hbound, Int.toNat_of_nonneg hsign, Int64.ofInt_toInt]
      rfl
    exact scanned_word (fun c hc => (isWordChar_of_isDigit (hdigits c hc)).1)
      (fun _ => lexeme_word true (isWordChar_of_isDigit hd).1)
      (classify_int (looksNumeric_digit hd) hint)
  · obtain ⟨d, ds, hds, hd, hdigits, hvalue⟩ := toDigits_cons (-n.toInt).toNat
    have hchars : ("-" ++ String.ofList (d :: ds)).toList = '-' :: d :: ds := by simp
    rw [if_neg hsign, Nat.repr_eq_ofList_toDigits, hds, hchars]
    have hint : intWord? ('-' :: d :: ds) = some n := by
      have hbound : (-n.toInt).toNat ≤ 2 ^ 63 := by
        have := n.le_toInt
        omega
      have hback : -((-n.toInt).toNat : Int) = n.toInt := by omega
      simp only [intWord?, splitSign, hvalue, List.isEmpty_cons, Option.bind_some, if_pos hbound,
        hback, Int64.ofInt_toInt]
      rfl
    have hlooks : looksNumeric ('-' :: d :: ds) = true := by
      obtain ⟨-, -, -, hpoint⟩ := isWordChar_of_isDigit hd
      simp [looksNumeric, hpoint, hd]
    refine scanned_word ?_ ?_ (classify_int hlooks hint)
    · intro c hc
      rcases List.mem_cons.1 hc with rfl | hc
      · exact (isWordChar_of_isDigit hd).1
      · exact (isWordChar_of_isDigit (hdigits c hc)).1
    · intro rest
      simp [lexeme, isBlank, isSymbolChar, isOperatorChar, hd]

/-- A text in quotes ends at the first quote. -/
theorem scanned_text {s : String} (hs : '"' ∉ s.toList) :
    Scanned (Value.text s).render.toList (.text s) := by
  intro before pos rest hsigns hrest
  have hchars : (Value.text s).render.toList = '"' :: (s.toList ++ ['"']) := by
    simp [Value.render]
  rw [hchars]
  let t : Token := ⟨.value, String.ofList ('"' :: (s.toList ++ ['"'])), .text s, pos⟩
  have htoken : Lexeme.text.token? false ('"' :: (s.toList ++ ['"'])) pos = .ok (some t) := by
    simp [Lexeme.token?, t]
  exact ⟨[t], .literal t, t, _, scanFrom_token (lexeme_quote_closed _ hs rest) htoken,
    .literal rfl, Expr.pushes_literal t⟩

/-! ## Arrays -/

/-- The token of a symbol. -/
def symbolAt (c : Char) (pos : Position) : Token := ⟨.symbol, String.ofList [c], .null, pos⟩

theorem scanFrom_symbol (hc : isSymbolChar c = true) :
    scanFrom false before pos (c :: rest) =
      (scanFrom false (some (symbolAt c pos)) (pos.after [c]) rest).map
        ([symbolAt c pos] ++ ·) := by
  exact @scanFrom_token before pos c [] rest .symbol _ (lexeme_symbol _ hc) rfl

/-- Printed values with commas between them. -/
def ScannedAll (cs : List Char) (vs : List Value) : Prop :=
  ∀ ⦃before : Option Token⦄ ⦃pos : Position⦄ ⦃rest : List Char⦄,
    signsBehind before = true → EndsValue rest →
    ∃ (parts : List (List Token × Expr)) (ts : List Token) (last : Option Token) (pos' : Position),
      scanFrom false before pos (cs ++ rest) = (scanFrom false last pos' rest).map (ts ++ ·) ∧
      (∀ part ∈ parts, Expr.Derives .whole part.1 part.2) ∧ Expr.Joined (parts.map (·.1)) ts ∧
      List.Forall₂ Expr.Pushes (parts.map (·.2)) vs

theorem scannedAll_one {v : Value} (h : Scanned cs v) : ScannedAll cs [v] := by
  intro before pos rest hsigns hrest
  obtain ⟨ts, e, last, pos', hscan, hderives, hpushes⟩ := h hsigns hrest
  have hwhole := Stmt.whole_of_primary (.other hderives)
  exact ⟨[(ts, e)], ts, last, pos', hscan, by simpa using hwhole, .one, .cons hpushes .nil⟩

theorem scannedAll_cons {v w : Value} {vs : List Value} {ds : List Char} (hv : Scanned cs v)
    (hvs : ScannedAll ds (w :: vs)) : ScannedAll (cs ++ ',' :: ' ' :: ds) (v :: w :: vs) := by
  intro before pos rest hsigns hrest
  have hcomma : EndsValue (',' :: ' ' :: (ds ++ rest)) := by simp [EndsValue]
  obtain ⟨ts, e, last, pos₁, hscan, hderives, hpushes⟩ := @hv before pos _ hsigns hcomma
  obtain ⟨parts, us, last', pos', hscan', hparts, hjoined, hall⟩ :=
    @hvs (some (symbolAt ',' pos₁)) ((pos₁.after [',']).after [' ']) rest rfl hrest
  refine ⟨(ts, e) :: parts, ts ++ symbolAt ',' pos₁ :: us, last', pos', ?_, ?_, ?_,
    .cons hpushes hall⟩
  · rw [List.append_assoc, List.cons_append, List.cons_append, hscan, scanFrom_symbol (by decide),
      scanFrom_space, hscan', map_append_map, map_append_map]
    simp
  · exact List.forall_mem_cons.2 ⟨Stmt.whole_of_primary (.other hderives), hparts⟩
  · cases parts with
    | nil => cases hall
    | cons part parts => exact .more rfl hjoined

theorem scannedAll_renderAll {vs : List Value} (h : ∀ v ∈ vs, Scanned v.render.toList v) :
    ScannedAll (Value.renderAll vs).toList vs := by
  induction vs with
  | nil =>
    intro before pos rest _ _
    refine ⟨[], [], before, pos, ?_, by simp, .none, .nil⟩
    show scanFrom false before pos rest = (scanFrom false before pos rest).map id
    cases scanFrom false before pos rest <;> rfl
  | cons v vs ih =>
    obtain ⟨hv, hvs⟩ := List.forall_mem_cons.1 h
    cases vs with
    | nil => exact scannedAll_one hv
    | cons w vs =>
      have hchars : (Value.renderAll (v :: w :: vs)).toList =
          v.render.toList ++ ',' :: ' ' :: (Value.renderAll (w :: vs)).toList := by
        simp [Value.renderAll]
      rw [hchars]
      exact scannedAll_cons hv (ih hvs)

theorem scanned_array {vs : List Value} (h : ScannedAll (Value.renderAll vs).toList vs) :
    Scanned (Value.array vs).render.toList (.array vs) := by
  intro before pos rest hsigns hrest
  have hchars : (Value.array vs).render.toList ++ rest =
      '[' :: ((Value.renderAll vs).toList ++ ']' :: rest) := by
    simp [Value.render]
  have hclose : EndsValue (']' :: rest) := by simp [EndsValue]
  obtain ⟨parts, ts, last, pos₁, hscan, hparts, hjoined, hall⟩ :=
    @h (some (symbolAt '[' pos)) (pos.after ['[']) (']' :: rest) rfl hclose
  have hscan' : scanFrom false before pos ((Value.array vs).render.toList ++ rest) =
      (scanFrom false (some (symbolAt ']' pos₁)) (pos₁.after [']']) rest).map
        (symbolAt '[' pos :: (ts ++ [symbolAt ']' pos₁]) ++ ·) := by
    rw [hchars, scanFrom_symbol (by decide), hscan, scanFrom_symbol (by decide), map_append_map,
      map_append_map]
    rfl
  exact ⟨_, _, _, _, hscan', .array rfl hparts hjoined rfl, Expr.pushes_array _ hall⟩

end Scan

/-- A value that can be written is scanned as it is printed. -/
theorem Value.Writable.scanned {v : Value} (h : v.Writable) : Scanned v.render.toList v := by
  induction h with
  | null => exact scanned_null
  | bool b => exact scanned_bool b
  | int n => exact scanned_int n
  | text hs => exact scanned_text hs
  | array _ ih => exact scanned_array (scannedAll_renderAll ih)

/-! ## Running what is printed -/

/-- What is printed compiles to code that pushes the value. -/
theorem Value.Writable.ofSource {v : Value} (h : v.Writable) :
    ∃ e : Expr, Program.ofSource v.render = .ok e.code ∧ e.Pushes v := by
  obtain ⟨ts, e, last, pos', hscan, hderives, hpushes⟩ :=
    @Value.Writable.scanned v h none .start [] rfl (by simp [EndsValue])
  refine ⟨e, ?_, hpushes⟩
  rw [List.append_nil, scanFrom.eq_1 _ (some last)] at hscan
  obtain ⟨body, eof, htokens, heof, hbody⟩ := scanFrom_ends hscan
  obtain ⟨rfl, rfl⟩ := List.append_singleton_inj.1 htokens
  have hkinds : ∀ t ∈ ts, t.kind ≠ .endOfInput ∧ t.kind ≠ .newLine := fun t ht =>
    ⟨hbody t ht, noLines_scanFrom hscan t (List.mem_append_left _ ht)⟩
  have hne : ts ≠ [] := by cases hderives <;> simp
  obtain ⟨first, us, rfl⟩ := List.exists_cons_of_ne_nil hne
  have hprogram : Stmt.DerivesProgram (first :: us) [.compute first e] := by
    have hwhole := Stmt.whole_of_primary (.other hderives)
    have hend : Stmt.Closes (.top true) [] := .atEnd rfl
    have hlast := Stmt.Derives.compute hwhole hend
    rw [List.append_nil] at hlast
    exact .last hlast
  rw [Program.ofSource, scan, hscan]
  exact (Program.compile_eq_ok_iff heof hkinds).2
    ⟨[.compute first e], ⟨hprogram, by simp [Stmt.declared, Stmt.declares]⟩, rfl⟩

/-- What is printed computes the value. -/
theorem Machine.runSource_render {ok : Native → Prop} {m : Machine} (hnew : m.New ok) {v : Value}
    (hv : v.Writable) (name : String) {fuel : Nat} (hfuel : 0 < fuel) :
    ∃ m', Machine.runSource fuel name v.render m = .ok v m' := by
  obtain ⟨e, hcode, hpushes⟩ := hv.ofSource
  obtain ⟨n, rfl⟩ := Nat.exists_eq_succ_of_ne_zero (Nat.ne_of_gt hfuel)
  have hfloor : Machine.floor { m with source := name } ≤ m.stack.height := by
    rw [Machine.floor, hnew.frames]
    exact Nat.zero_le _
  obtain ⟨m₁, hexec, hlive, -⟩ := hpushes n { m with source := name } hfloor
  have hcleared : Machine.clearFailure { m with source := name } = { m with source := name } := by
    simp [Machine.clearFailure, hnew.failed]
  have hresult : m₁.stack.resultAbove m.stack.height = v := by
    simp [ValueStack.resultAbove, ValueStack.height, ValueStack.top?, hlive]
  refine ⟨{ m₁ with stack := m₁.stack.cutTo m.stack.height, source := m.source }, ?_⟩
  simp only [Machine.runSource, hcode, inSource, Machine.run, hcleared, runAbove_apply, hexec,
    Machine.markFailure, hresult]

/-! ## Values of a host -/

/-- The values of a host that can be written in a program. -/
inductive RawValue.Writable : RawValue → Prop
  | null : Writable .null
  | bool (b : Bool) : Writable (.bool b)
  | int (n : Int64) : Writable (.int n)
  | text {bytes : List UInt8} : 0x22 ∉ bytes → Writable (.text bytes)
  | array {vs : List RawValue} : (∀ v ∈ vs, Writable v) → Writable (.array vs)

theorem RawValue.mem_readAll {w : Value} {vs : List RawValue} (h : w ∈ RawValue.readAll vs) :
    ∃ v ∈ vs, w = v.read := by
  induction vs with
  | nil => simp [RawValue.readAll] at h
  | cons v vs ih =>
    rw [RawValue.readAll] at h
    rcases List.mem_cons.1 h with rfl | h
    · exact ⟨v, List.mem_cons_self, rfl⟩
    · obtain ⟨u, hu, rfl⟩ := ih h
      exact ⟨u, List.mem_cons_of_mem _ hu, rfl⟩

theorem RawValue.Writable.read {v : RawValue} (h : v.Writable) : v.read.Writable := by
  induction h with
  | null => exact .null
  | bool b => exact .bool b
  | int n => exact .int n
  | text hbytes =>
    -- a quote among the characters would be one among the bytes
    refine .text fun hquote => hbytes (Utf8.mem_of_mem_chars (c := '"') (by decide) (by decide) ?_)
    simpa [Utf8.decode] using hquote
  | array _ ih =>
    refine .array fun w hw => ?_
    obtain ⟨v, hv, rfl⟩ := RawValue.mem_readAll hw
    exact ih v hv

/-- **Printed values are programs that compute them.** On a new machine, a value of a host that can
be written prints as a program, and the program computes the value that programs see in its place.
That is the same value exactly if its texts are well formed. -/
theorem Machine.runBytes_render {ok : Native → Prop} {m : Machine} (hnew : m.New ok) {v : RawValue}
    (hv : v.Writable) (name : String) {fuel : Nat} (hfuel : 0 < fuel) :
    (∃ m', Machine.runBytes fuel name v.render m = .ok v.read m') ∧
      (v.read.raw = v ↔ v.WellFormed) := by
  refine ⟨?_, v.raw_read_eq_iff⟩
  rw [Machine.runBytes, v.decode_render]
  exact Machine.runSource_render hnew hv.read name hfuel

/-- The least integer, a text that looks like a comment and a bracket, one with a character of two
bytes, and empty and nested arrays, on a machine that has just been made. -/
theorem Machine.runBytes_render_nested :
    let v : RawValue := .array [.int (-2 ^ 63), .text (Utf8.encode "/*]\n"),
      .array [.array [], .array [.null, .text [0xc3, 0xa9]]]]
    v.render = Utf8.encode "[-9223372036854775808, \"/*]\n\", [[], [null, \"é\"]]]" ∧
      v.WellFormed ∧ ∃ w m', Machine.runBytes 1 "values" v.render {} = .ok w m' ∧ w.raw = v := by
  intro v
  have hwritable : v.Writable := by
    refine .array (List.forall_mem_cons.2 ⟨.int _, List.forall_mem_cons.2 ⟨.text (by decide), ?_⟩⟩)
    refine List.forall_mem_singleton.2 (.array (List.forall_mem_cons.2 ⟨.array (by simp), ?_⟩))
    refine List.forall_mem_singleton.2 (.array (List.forall_mem_cons.2 ⟨.null, ?_⟩))
    exact List.forall_mem_singleton.2 (.text (by decide))
  have hformed : v.WellFormed := by
    refine .array (List.forall_mem_cons.2 ⟨.int _, List.forall_mem_cons.2 ⟨.text ⟨_, rfl⟩, ?_⟩⟩)
    refine List.forall_mem_singleton.2 (.array (List.forall_mem_cons.2 ⟨.array (by simp), ?_⟩))
    refine List.forall_mem_singleton.2 (.array (List.forall_mem_cons.2 ⟨.null, ?_⟩))
    exact List.forall_mem_singleton.2 (.text ⟨['é'], by decide⟩)
  obtain ⟨⟨m', hrun⟩, hsame⟩ :=
    Machine.runBytes_render Machine.new_default hwritable "values" Nat.one_pos
  exact ⟨by decide +kernel, hformed, _, m', hrun, hsame.2 hformed⟩

/-- **A text that is not well formed comes back as another one.** Its one byte begins no character,
and is read as the replacement character. -/
theorem Machine.runBytes_render_replaced :
    let v : RawValue := .text [0xff]
    v.Writable ∧ v.render = [0x22, 0xff, 0x22] ∧
      ∃ w m', Machine.runBytes 1 "values" v.render {} = .ok w m' ∧
        w = .text "\ufffd" ∧ w.raw ≠ v := by
  intro v
  have hwritable : v.Writable := .text (by decide)
  obtain ⟨m', hrun⟩ :=
    Machine.runSource_render Machine.new_default hwritable.read "values" Nat.one_pos
  rw [← v.decode_render] at hrun
  have hread : v.read = .text "\ufffd" := congrArg Value.text (by decide +kernel)
  refine ⟨hwritable, by decide, _, m', hrun, hread, ?_⟩
  rw [hread]
  intro hraw
  have hbytes : Utf8.encode "\ufffd" = [0xff] := by simpa [v, Value.raw] using hraw
  exact absurd hbytes (by decide)

end StackScript

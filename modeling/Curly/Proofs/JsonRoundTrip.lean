import Mathlib.Data.List.Forall2
import Curly.Proofs.Escaping
import Curly.Proofs.JsonReading
import Curly.Proofs.Refusals
import Curly.Proofs.Tags

/-!
# JSON that reads back

`Json.scriptSafe` writes JSON and then replaces four characters throughout the text. The replacements
hit only the inside of strings and leave each escape there whole, so a decoder finds the character
that was written (`Json.char?_escaped`), the string (`Json.string?_escaped`) and in the end the value
(`Json.scriptSafe_exact`). What has no JSON text is what holds a value or a key that JSON has no form
for (`Json.scriptSafe_fails_iff`).
-/

namespace Curly

namespace Json

/-! ## Texts in a script -/

/-- A text with the replacements that make it safe in a script. -/
def inScript (text : String) : List Char := Text.substitute scriptEscapes text.toList

theorem inScript_append (a b : String) : inScript (a ++ b) = inScript a ++ inScript b := by
  rw [inScript, String.toList_append, Text.substitute_append]
  rfl

/-- A text without the four characters stays as it is. -/
theorem inScript_eq_self {text : String}
    (h : ∀ c ∈ text.toList, ∀ r ∈ scriptEscapes, c ≠ r.1) : inScript text = text.toList := by
  rw [inScript, Text.substitute_eq_flatMap]
  generalize text.toList = cs at h
  induction cs with
  | nil => rfl
  | cons c rest ih =>
    obtain ⟨hc, hrest⟩ := List.forall_mem_cons.mp h
    rw [List.flatMap_cons, Text.substitute_singleton_of_forall_ne hc, ih hrest]
    rfl

/-! ## Strings -/

/-- What a character of a string becomes in a script. -/
def escaped (c : Char) : List Char := Text.substitute scriptEscapes (escapeChar c)

theorem inScript_string (s : String) :
    inScript (string s) = '"' :: (s.toList.flatMap escaped ++ ['"']) := by
  have hquote : Text.substitute scriptEscapes ['"'] = ['"'] := by decide
  have hflat : ∀ cs : List Char, Text.substitute scriptEscapes (cs.flatMap escapeChar) =
      cs.flatMap escaped := by
    intro cs
    induction cs with
    | nil => rfl
    | cons c rest ih =>
      rw [List.flatMap_cons, Text.substitute_append, ih]
      rfl
  rw [inScript, string, String.toList_ofList, ← List.singleton_append, List.append_assoc,
    Text.substitute_append, Text.substitute_append, hquote, hflat]
  rfl

/-- The four digits of a character of ASCII, which no replacement touches. -/
theorem hex_ascii {n : Nat} (h : n < 0x80) :
    Text.substitute scriptEscapes ('\\' :: 'u' :: Text.hex 4 n) = '\\' :: 'u' :: Text.hex 4 n ∧
      Text.hexValue? (Text.hex 4 n) = some n ∧ ∀ c ∈ Text.hex 4 n, 0x20 ≤ c.toNat := by
  have hall : ∀ n < 0x80,
      Text.substitute scriptEscapes ('\\' :: 'u' :: Text.hex 4 n) = '\\' :: 'u' :: Text.hex 4 n ∧
        Text.hexValue? (Text.hex 4 n) = some n ∧
        (Text.hex 4 n).all fun c => 0x20 ≤ c.toNat := by
    decide +kernel
  rcases hall n h with ⟨hkept, hvalue, hprintable⟩
  refine ⟨hkept, hvalue, ?_⟩
  intro c hc
  exact of_decide_eq_true (List.all_eq_true.mp hprintable c hc)

/-- How a character of a string is written: as itself, after a backslash, or by its number. -/
inductive Escaped (c : Char) : List Char → Prop where
  | kept : 0x20 ≤ c.toNat → c ≠ '"' → c ≠ '\\' → Escaped c [c]
  | short {d : Char} : d ≠ 'u' → 0x20 ≤ d.toNat → shortEscapes.lookup d = some c →
      Escaped c ['\\', d]
  | number : c.toNat < 0x80 → Escaped c ('\\' :: 'u' :: Text.hex 4 c.toNat)

theorem escaped_spec (c : Char) : Escaped c (escaped c) := by
  by_cases hshort : ∃ p ∈ shortEscapes, p.1 ≠ '/' ∧ c = p.2
  · obtain ⟨p, hp, hsolidus, rfl⟩ := hshort
    have hall : ∀ p ∈ shortEscapes, p.1 ≠ '/' → escaped p.2 = ['\\', p.1] ∧ p.1 ≠ 'u' ∧
        0x20 ≤ p.1.toNat ∧ shortEscapes.lookup p.1 = some p.2 := by
      decide
    obtain ⟨hescaped, hu, hprintable, hlookup⟩ := hall p hp hsolidus
    rw [hescaped]
    exact .short hu hprintable hlookup
  have hother :
      escapeChar c = if c.toNat < 0x20 then '\\' :: 'u' :: Text.hex 4 c.toNat else [c] := by
    simp only [shortEscapes, List.mem_cons, List.not_mem_nil, or_false, exists_eq_or_imp,
      exists_eq_left] at hshort
    grind [escapeChar]
  rw [escaped, hother]
  split
  · next hcontrol =>
    have hascii : c.toNat < 0x80 := by omega
    rw [(hex_ascii hascii).1]
    exact .number hascii
  · next hcontrol =>
    by_cases hkept : ∀ r ∈ scriptEscapes, c ≠ r.1
    · rw [Text.substitute_singleton_of_forall_ne hkept]
      refine .kept (by omega) ?_ ?_
      · rintro rfl
        exact hshort ⟨('"', '"'), by decide, by decide, rfl⟩
      · rintro rfl
        exact hshort ⟨('\\', '\\'), by decide, by decide, rfl⟩
    · -- one of the four characters that could end a script
      obtain ⟨r, hr, rfl⟩ : ∃ r ∈ scriptEscapes, c = r.1 := by simpa using hkept
      have hreplaced : ∀ r ∈ scriptEscapes, r.1.toNat < 0x80 ∧
          Text.substitute scriptEscapes [r.1] = '\\' :: 'u' :: Text.hex 4 r.1.toNat := by
        decide
      rw [(hreplaced r hr).2]
      exact .number (hreplaced r hr).1

/-- A character is read back from what it became, whatever follows. -/
theorem char?_escaped (c : Char) (rest : List Char) :
    char? (escaped c ++ rest) = some (c, rest) := by
  generalize hcs : escaped c = cs
  have hspec : Escaped c cs := hcs ▸ escaped_spec c
  cases hspec with
  | kept hprintable hquote hslash =>
    have hnot : ¬ (c.toNat < 0x20 ∨ c = '"' ∨ c = '\\') := by
      rintro (h | h | h)
      · omega
      · exact hquote h
      · exact hslash h
    rw [List.singleton_append, char?]
    · exact if_neg hnot
    · intro _ h _
      exact hslash h
    · intro _ _ h _
      exact hslash h
  | @short d hu _ hlookup =>
    rw [List.cons_append, List.singleton_append, char?]
    · rw [hlookup]
      rfl
    · exact hu
  | number hascii =>
    have hlength : (Text.hex 4 c.toNat).length = 4 := Text.length_hex 4 c.toNat
    have htake : (Text.hex 4 c.toNat ++ rest).take 4 = Text.hex 4 c.toNat := List.take_left' hlength
    have hdrop : (Text.hex 4 c.toNat ++ rest).drop 4 = rest := List.drop_left' hlength
    have henough : 4 ≤ (Text.hex 4 c.toNat ++ rest).length := by
      rw [List.length_append, hlength]
      omega
    have hunit : unit? (Text.hex 4 c.toNat ++ rest) = some (c.toNat, rest) := by
      rw [unit?, if_pos henough, htake, hdrop, (hex_ascii hascii).2.1]
      rfl
    -- an ASCII character is no half of a pair, so one escape is all of it
    have hlow : c.toNat < 0xD800 ∨ 0xE000 ≤ c.toNat := by omega
    rw [List.cons_append, List.cons_append, char?, unicodeEscape?, hunit]
    change (if _ then some (Char.ofNat c.toNat, rest) else _) = _
    rw [if_pos hlow, Char.ofNat_toNat]

/-- What a character becomes does not begin with a quote and has no control in it. -/
theorem exists_escaped_eq (c : Char) : ∃ first more, escaped c = first :: more ∧ first ≠ '"' ∧
    ∀ d ∈ escaped c, 0x20 ≤ d.toNat := by
  generalize hcs : escaped c = cs
  have hspec : Escaped c cs := hcs ▸ escaped_spec c
  cases hspec with
  | kept hprintable hquote hslash =>
    refine ⟨c, [], rfl, hquote, ?_⟩
    intro d hd
    rw [List.mem_singleton.mp hd]
    exact hprintable
  | @short d hu hprintable hlookup =>
    refine ⟨'\\', [d], rfl, by decide, ?_⟩
    intro e he
    simp only [List.mem_cons, List.not_mem_nil, or_false] at he
    rcases he with rfl | rfl
    · decide
    · exact hprintable
  | number hascii =>
    refine ⟨'\\', _, rfl, by decide, ?_⟩
    intro d hd
    simp only [List.mem_cons] at hd
    rcases hd with rfl | rfl | hd
    · decide
    · decide
    · exact (hex_ascii hascii).2.2 d hd

/-- A string is read back up to its closing quote. -/
theorem string?_escaped (cs rest : List Char) :
    string? (cs.flatMap escaped ++ '"' :: rest) = some (cs, rest) := by
  induction cs with
  | nil =>
    rw [string?]
    rfl
  | cons c cs ih =>
    obtain ⟨first, more, hescaped, hquote, -⟩ := exists_escaped_eq c
    have hhead : (escaped c ++ (cs.flatMap escaped ++ '"' :: rest)).head? ≠ some '"' := by
      rw [hescaped, List.cons_append, List.head?_cons]
      simpa using hquote
    have hshorter : (cs.flatMap escaped ++ '"' :: rest).length <
        (escaped c ++ (cs.flatMap escaped ++ '"' :: rest)).length := by
      rw [hescaped, List.cons_append, List.length_cons]
      simp only [List.length_append]
      omega
    rw [List.flatMap_cons, List.append_assoc, string?, if_neg hhead, char?_escaped]
    simp only [Option.bind_some, if_pos hshorter, ih]
    rfl

/-! ## What is read back -/

/-- What may come after a value in compact JSON. -/
def Stops (rest : List Char) : Prop := ∀ c ∈ rest.head?, c = ',' ∨ c = ']' ∨ c = '\x7d'

/-- A text that is read back as a value: it begins with a character of the value, has no controls, and
is read to its end. -/
structure Reads (text : String) (v : Value) : Prop where
  begins : ∃ c more, inScript text = c :: more ∧ isSpace c = false ∧ c ≠ ']'
  printable : ∀ c ∈ inScript text, 0x20 ≤ c.toNat
  value : ∀ rest, Stops rest → value? (inScript text ++ rest) = some (v, rest)

theorem skip_cons {c : Char} (h : isSpace c = false) (rest : List Char) :
    skip (c :: rest) = c :: rest := by
  rw [skip, List.dropWhile_cons_of_neg (by rw [h]; exact Bool.false_ne_true)]

theorem next?_cons {c : Char} (h : isSpace c = false) (rest : List Char) :
    next? (c :: rest) = some c := by
  rw [next?, skip_cons h, List.head?_cons]

theorem afterNext_cons {c : Char} (h : isSpace c = false) (rest : List Char) :
    afterNext (c :: rest) = rest := by
  rw [afterNext, skip_cons h, List.tail_cons]

/-- A value that begins with no bracket, brace or quote is a word or a number. -/
theorem value?_scalar {c : Char} {rest : List Char} (hspace : isSpace c = false)
    (hc : c ≠ '[' ∧ c ≠ '\x7b' ∧ c ≠ '"') :
    value? (c :: rest) = (word? (c :: rest) <|> number? (c :: rest)) := by
  have hne : ∀ d, c ≠ d → some c ≠ some d := fun d h heq => h (Option.some.inj heq)
  rw [value?, next?_cons hspace, skip_cons hspace, if_neg (hne _ hc.1), if_neg (hne _ hc.2.1),
    if_neg (hne _ hc.2.2)]

theorem Reads.string (s : String) : Reads (string s) (.str s) := by
  have hquote : isSpace '"' = false := by decide
  refine ⟨⟨'"', _, inScript_string s, hquote, by decide⟩, ?_, ?_⟩
  · intro c hc
    rw [inScript_string, List.mem_cons, List.mem_append, List.mem_singleton, List.mem_flatMap] at hc
    rcases hc with rfl | ⟨d, -, hd⟩ | rfl
    · decide
    · obtain ⟨first, more, -, -, hprintable⟩ := exists_escaped_eq d
      exact hprintable c hd
    · decide
  · intro rest _
    rw [inScript_string, List.cons_append, List.append_assoc, List.singleton_append, value?,
      next?_cons hquote, afterNext_cons hquote, string?_escaped, if_neg (by decide),
      if_neg (by decide), if_pos rfl, Option.map_some]
    dsimp only
    rw [String.ofList_toList]

/-- A text of printable characters that no replacement touches, beginning as a word or a number does,
is read back if the readers of words and numbers read it. -/
theorem Reads.scalar {text : String} {v : Value} {c : Char} {more : List Char}
    (htext : text.toList = c :: more) (hspace : isSpace c = false)
    (hc : c ≠ '[' ∧ c ≠ '\x7b' ∧ c ≠ '"') (hclose : c ≠ ']')
    (hsafe : ∀ d ∈ text.toList, 0x20 ≤ d.toNat ∧ ∀ r ∈ scriptEscapes, d ≠ r.1)
    (hread : ∀ rest, Stops rest →
      (word? (text.toList ++ rest) <|> number? (text.toList ++ rest)) = some (v, rest)) :
    Reads text v := by
  have hself : inScript text = text.toList := inScript_eq_self fun d hd => (hsafe d hd).2
  refine ⟨⟨c, more, hself.trans htext, hspace, hclose⟩, ?_, ?_⟩
  · intro d hd
    rw [hself] at hd
    exact (hsafe d hd).1
  · intro rest hrest
    rw [hself, ← hread rest hrest, htext, List.cons_append]
    exact value?_scalar hspace hc

theorem Reads.null : Reads "null" .null :=
  Reads.scalar (c := 'n') rfl rfl (by decide) (by decide) (by simp [scriptEscapes])
    fun rest _ => rfl

theorem Reads.bool (b : Bool) : Reads (if b then "true" else "false") (.bool b) := by
  cases b with
  | true =>
    show Reads "true" (.bool true)
    exact Reads.scalar (c := 't') rfl rfl (by decide) (by decide) (by simp [scriptEscapes])
      fun rest _ => rfl
  | false =>
    show Reads "false" (.bool false)
    exact Reads.scalar (c := 'f') rfl rfl (by decide) (by decide) (by simp [scriptEscapes])
      fun rest _ => rfl

/-! ## Numbers -/

theorem digitsValue_digitsOf (n : Nat) : digitsValue (Decimal.digitsOf n) = n := by
  rw [digitsValue, ← Nat.ofDigitChars_eq_foldl]
  exact Nat.ofDigitChars_ten_toDigits

/-- Only zero itself is written with a zero first. -/
theorem digitsOf_of_head?_eq_zero {n : Nat} (h : (Decimal.digitsOf n).head? = some '0') :
    Decimal.digitsOf n = ['0'] := by
  have hzero : n = 0 := by
    induction n using Nat.strongRecOn with
    | _ n ih =>
      rw [Decimal.digitsOf] at h
      by_cases hn : n < 10
      · rw [Nat.toDigits_of_lt_base hn] at h
        have hdigit : ∀ n < 10, n.digitChar = '0' → n = 0 := by decide
        exact hdigit n hn (Option.some.inj h)
      · rw [Nat.toDigits_of_base_le (by decide) (by omega),
          List.head?_append_of_ne_nil _ Nat.toDigits_ne_nil] at h
        have hdiv := ih (n / 10) (by omega) h
        omega
  rw [hzero]
  rfl

theorem unsigned?_digitsOf (negative : Bool) (n : Nat) {rest : List Char} (h : Stops rest) :
    unsigned? negative (Decimal.digitsOf n ++ rest) =
      some (.int (if negative then -(n : Int) else n), rest) := by
  have hdigits : ∀ c ∈ Decimal.digitsOf n, c.isDigit = true :=
    fun c hc => Path.isDigit_of_mem_digitsOf hc
  have hstop : ∀ c ∈ rest.head?, c.isDigit = false := by
    intro c hc
    rcases h c hc with rfl | rfl | rfl
    · rfl
    · rfl
    · rfl
  obtain ⟨htake, hdrop⟩ := Text.run_append hdigits hstop
  -- what follows begins neither a fraction nor an exponent, and the digits have no zero in front
  have hfraction : fraction rest = ([], rest) := by
    unfold fraction
    split
    · next more =>
      rcases h '.' rfl with hc | hc | hc
      · cases hc
      · cases hc
      · cases hc
    · rfl
  have hexponent : exponent? rest = (none, rest) := by
    cases rest with
    | nil => rfl
    | cons c more =>
      have hmark : ¬ (c = 'e' ∨ c = 'E') := by
        rintro (rfl | rfl)
        · exact absurd (h 'e' rfl) (by decide)
        · exact absurd (h 'E' rfl) (by decide)
      unfold exponent?
      exact if_neg fun hand => hmark hand.1
  have hleading : ¬ (Decimal.digitsOf n = [] ∨
      ((Decimal.digitsOf n).head? = some '0' ∧ Decimal.digitsOf n ≠ ['0'])) := by
    rintro (hnil | ⟨hzero, hne⟩)
    · exact Nat.toDigits_ne_nil hnil
    · exact hne (digitsOf_of_head?_eq_zero hzero)
  rw [unsigned?, htake, hdrop, hfraction]
  dsimp only
  rw [hexponent]
  dsimp only
  rw [if_neg hleading, if_pos ⟨rfl, rfl⟩, digitsValue_digitsOf]

/-- A character from the minus up to the nine, as all characters of whole numbers are. -/
def InNumber (c : Char) : Prop := 0x2D ≤ c.toNat ∧ c.toNat ≤ 0x39

theorem InNumber.ne {c d : Char} (h : InNumber c) (hd : d.toNat < 0x2D ∨ 0x39 < d.toNat) :
    c ≠ d := by
  rintro rfl
  obtain ⟨hlow, hhigh⟩ := h
  omega

theorem inNumber_of_isDigit {c : Char} (h : c.isDigit = true) : InNumber c ∧ c ≠ '-' := by
  have hrange : 0x30 ≤ c.toNat ∧ c.toNat ≤ 0x39 := by
    simp only [Char.isDigit, Bool.and_eq_true, decide_eq_true_eq] at h
    exact ⟨UInt32.le_iff_toNat_le.mp h.1, UInt32.le_iff_toNat_le.mp h.2⟩
  refine ⟨⟨by omega, hrange.2⟩, ?_⟩
  rintro rfl
  exact absurd h (by decide)

/-- No word begins as a number does. -/
theorem word?_eq_none {c : Char} (h : InNumber c) (rest : List Char) :
    word? (c :: rest) = none := by
  have hother : ∀ (d : Char) (word : List Char), c ≠ d →
      (d :: word).isPrefixOf? (c :: rest) = none := by
    intro d word hd
    have hbeq : (d == c) = false := by simpa using Ne.symm hd
    rw [List.isPrefixOf?, hbeq]
    rfl
  have hnull := hother 'n' "ull".toList (h.ne (by decide))
  have htrue := hother 't' "rue".toList (h.ne (by decide))
  have hfalse := hother 'f' "alse".toList (h.ne (by decide))
  change ((('n' :: "ull".toList).isPrefixOf? (c :: rest)).map _ <|>
    (('t' :: "rue".toList).isPrefixOf? (c :: rest)).map _ <|>
    (('f' :: "alse".toList).isPrefixOf? (c :: rest)).map _) = none
  rw [hnull, htrue, hfalse]
  rfl

/-- The text of a number is read back if the reader of numbers reads it. -/
theorem Reads.number {text : String} {v : Value} {c : Char} {more : List Char}
    (htext : text.toList = c :: more) (hall : ∀ d ∈ c :: more, InNumber d)
    (hread : ∀ rest, Stops rest → number? (text.toList ++ rest) = some (v, rest)) :
    Reads text v := by
  have hc : InNumber c := hall c List.mem_cons_self
  have hspace : isSpace c = false := by
    simp only [isSpace, Bool.or_eq_false_iff, beq_eq_false_iff_ne]
    exact ⟨⟨⟨hc.ne (by decide), hc.ne (by decide)⟩, hc.ne (by decide)⟩, hc.ne (by decide)⟩
  refine Reads.scalar htext hspace
    ⟨hc.ne (by decide), hc.ne (by decide), hc.ne (by decide)⟩ (hc.ne (by decide)) ?_ ?_
  · intro d hd
    rw [htext] at hd
    have hnumber := hall d hd
    have hoff : ∀ r ∈ scriptEscapes, r.1.toNat < 0x2D ∨ 0x39 < r.1.toNat := by decide
    refine ⟨?_, fun r hr => hnumber.ne (hoff r hr)⟩
    obtain ⟨hlow, -⟩ := hnumber
    omega
  · intro rest hrest
    have hword : word? (text.toList ++ rest) = none := by
      rw [htext]
      exact word?_eq_none hc _
    rw [hword, hread rest hrest]
    rfl

/-- A whole number is read back. -/
theorem Reads.int (n : Int) : Reads (toString n) (.int n) := by
  have hdigits : ∀ n, ∀ d ∈ Decimal.digitsOf n, InNumber d ∧ d ≠ '-' :=
    fun n d hd => inNumber_of_isDigit (Path.isDigit_of_mem_digitsOf hd)
  rcases n with n | n
  · have htext : (toString (Int.ofNat n)).toList = Decimal.digitsOf n := Nat.toList_repr
    obtain ⟨c, more, hcs⟩ := List.exists_cons_of_ne_nil (Nat.toDigits_ne_nil (b := 10) (n := n))
    have hall := hdigits n
    rw [Decimal.digitsOf, hcs] at hall
    refine Reads.number (htext.trans hcs) (fun d hd => (hall d hd).1) ?_
    intro rest hrest
    have hread := unsigned?_digitsOf false n hrest
    rw [htext]
    rw [Decimal.digitsOf, hcs, List.cons_append] at hread ⊢
    rw [number?]
    -- without a minus the first character is a digit, and only a minus would be taken off
    · exact hread
    · intro cs heq
      exact (hall c List.mem_cons_self).2 (List.cons.inj heq).1
  · have htext : (toString (Int.negSucc n)).toList = '-' :: Decimal.digitsOf (n + 1) := by
      change ("-" ++ (n + 1).repr).toList = _
      rw [String.toList_append, Nat.toList_repr]
      rfl
    refine Reads.number htext ?_ ?_
    · intro d hd
      rcases List.mem_cons.mp hd with rfl | hd
      · exact ⟨by decide, by decide⟩
      · exact (hdigits (n + 1) d hd).1
    · intro rest hrest
      rw [htext]
      exact unsigned?_digitsOf true (n + 1) hrest

/-! ## Arrays and objects -/

theorem inScript_singleton (text : String) : inScript (",".intercalate [text]) = inScript text := by
  rw [inScript, String.toList_intercalate, List.map_singleton, List.intercalate_singleton]
  rfl

theorem inScript_cons_cons (first second : String) (rest : List String) :
    inScript (",".intercalate (first :: second :: rest)) =
      inScript first ++ ',' :: inScript (",".intercalate (second :: rest)) := by
  have hcomma : Text.substitute scriptEscapes [','] = [','] := by decide
  rw [inScript, String.toList_intercalate, List.map_cons, List.map_cons, List.intercalate_cons_cons,
    Text.substitute_append, Text.substitute_append]
  change _ ++ Text.substitute scriptEscapes [','] ++ _ = _
  rw [hcomma, List.append_assoc, List.singleton_append, ← List.map_cons, inScript, inScript,
    String.toList_intercalate]

/-- Texts between brackets or braces. -/
theorem inScript_enclosed {opening closing : String} {first last : Char}
    (hopening : inScript opening = [first]) (hclosing : inScript closing = [last]) (text : String) :
    inScript (opening ++ text ++ closing) = first :: (inScript text ++ [last]) := by
  rw [inScript_append, inScript_append, hopening, hclosing, List.append_assoc, List.singleton_append]

theorem printable_intercalate {texts : List String}
    (h : ∀ text ∈ texts, ∀ c ∈ inScript text, 0x20 ≤ c.toNat) :
    ∀ c ∈ inScript (",".intercalate texts), 0x20 ≤ c.toNat := by
  induction texts with
  | nil =>
    intro c hc
    cases hc
  | cons text rest ih =>
    obtain ⟨htext, hrest⟩ := List.forall_mem_cons.mp h
    cases rest with
    | nil =>
      rw [inScript_singleton]
      exact htext
    | cons second rest =>
      intro c hc
      rw [inScript_cons_cons, List.mem_append, List.mem_cons] at hc
      rcases hc with hc | rfl | hc
      · exact htext c hc
      · decide
      · exact ih hrest c hc

theorem printable_enclosed {first last : Char} {cs : List Char} (hfirst : 0x20 ≤ first.toNat)
    (hlast : 0x20 ≤ last.toNat) (h : ∀ c ∈ cs, 0x20 ≤ c.toNat) :
    ∀ c ∈ first :: (cs ++ [last]), 0x20 ≤ c.toNat :=
  List.forall_mem_cons.mpr
    ⟨hfirst, List.forall_mem_append.mpr ⟨h, List.forall_mem_singleton.mpr hlast⟩⟩

/-- The items of an array are read back, up to the bracket after them. -/
theorem items?_intercalate {texts : List String} {vs : List Value} (h : List.Forall₂ Reads texts vs)
    (hne : texts ≠ []) (rest : List Char) :
    items? (inScript (",".intercalate texts) ++ ']' :: rest) = some (vs, rest) := by
  have hbracket : isSpace ']' = false := by decide
  have hcomma : isSpace ',' = false := by decide
  induction h with
  | nil => exact absurd rfl hne
  | @cons text v texts vs hv htail ih =>
    cases htail with
    | nil =>
      have hvalue := hv.value (']' :: rest) (by rintro _ ⟨⟩; exact .inr (.inl rfl))
      rw [inScript_singleton, items?, hvalue, Option.bind_some]
      dsimp only
      rw [next?_cons hbracket, if_pos rfl, afterNext_cons hbracket]
    | @cons second w texts vs _ _ =>
      have hmore := ih (List.cons_ne_nil _ _)
      generalize hjoined : inScript (",".intercalate (second :: texts)) ++ ']' :: rest = more at hmore
      have hvalue := hv.value (',' :: more) (by rintro _ ⟨⟩; exact .inl rfl)
      have hshorter : more.length < (inScript text ++ ',' :: more).length := by
        rw [List.length_append, List.length_cons]
        omega
      rw [inScript_cons_cons, List.append_assoc, List.cons_append, hjoined, items?, hvalue,
        Option.bind_some]
      dsimp only
      rw [next?_cons hcomma, if_neg (by decide), afterNext_cons hcomma, if_pos ⟨rfl, hshorter⟩,
        hmore]
      rfl

/-- Texts one after another begin as the first of them does. -/
theorem exists_intercalate_eq {text : String} {c : Char} {more : List Char}
    (h : inScript text = c :: more) (rest : List String) (after : List Char) :
    ∃ tail, inScript (",".intercalate (text :: rest)) ++ after = c :: tail := by
  cases rest with
  | nil =>
    rw [inScript_singleton, h]
    exact ⟨_, rfl⟩
  | cons second rest =>
    rw [inScript_cons_cons, h]
    exact ⟨_, rfl⟩

/-- What is true of a text with a value that it is read as holds of each of several such texts. -/
theorem forall_mem_of_forall₂ {α β : Type} {R : α → β → Prop} {P : α → Prop} {xs : List α}
    {ys : List β} (h : List.Forall₂ R xs ys) (hP : ∀ x y, R x y → P x) : ∀ x ∈ xs, P x := by
  induction h with
  | nil => exact List.forall_mem_nil P
  | cons hxy _ ih => exact List.forall_mem_cons.mpr ⟨hP _ _ hxy, ih⟩

/-- An array is read back if its items are. -/
theorem Reads.array {texts : List String} {vs : List Value} (h : List.Forall₂ Reads texts vs) :
    Reads ("[" ++ ",".intercalate texts ++ "]") (.list vs) := by
  have hopen : isSpace '[' = false := by decide
  have hclose : isSpace ']' = false := by decide
  have hwhole : inScript ("[" ++ ",".intercalate texts ++ "]") =
      '[' :: (inScript (",".intercalate texts) ++ [']']) :=
    inScript_enclosed (by decide) (by decide) _
  refine ⟨⟨'[', _, hwhole, hopen, by decide⟩, ?_, ?_⟩
  · have hitems := forall_mem_of_forall₂ h fun _ _ hv => hv.printable
    rw [hwhole]
    exact printable_enclosed (by decide) (by decide) (printable_intercalate hitems)
  · intro rest _
    rw [hwhole, List.cons_append, List.append_assoc, List.singleton_append, value?, next?_cons hopen,
      if_pos rfl, afterNext_cons hopen]
    cases h with
    | nil =>
      change (if next? (']' :: rest) = some ']' then some (Value.list [], afterNext (']' :: rest))
        else _) = _
      rw [next?_cons hclose, if_pos rfl, afterNext_cons hclose]
    | @cons text v texts vs hv htail =>
      have hitems := items?_intercalate (.cons hv htail) (List.cons_ne_nil _ _) rest
      obtain ⟨c, more, hbegin, hspace, hc⟩ := hv.begins
      obtain ⟨tail, hjoined⟩ := exists_intercalate_eq hbegin texts (']' :: rest)
      have hne : ¬ next? (c :: tail) = some ']' := by
        rw [next?_cons hspace]
        exact fun heq => hc (Option.some.inj heq)
      rw [hjoined] at hitems
      rw [hjoined, if_neg hne, if_pos (by simp), hitems]
      rfl

/-- A member of an object with a string for its key. -/
def member (m : String × Value) : Key × Value := (.str m.1, m.2)

/-- A text that is read back as a member of an object: a name, and a text that is read as its value. -/
def ReadsMember (text : String) (m : String × Value) : Prop :=
  ∃ valueText, text = string m.1 ++ ":" ++ valueText ∧ Reads valueText m.2

theorem ReadsMember.inScript_eq {text : String} {m : String × Value} (h : ReadsMember text m) :
    ∃ valueText, Reads valueText m.2 ∧ inScript text =
      '"' :: (m.1.toList.flatMap escaped ++ '"' :: ':' :: inScript valueText) := by
  obtain ⟨valueText, rfl, hv⟩ := h
  have hcolon : inScript ":" = [':'] := by decide
  refine ⟨valueText, hv, ?_⟩
  rw [inScript_append, inScript_append, inScript_string, hcolon]
  simp only [List.cons_append, List.append_assoc, List.nil_append]

theorem ReadsMember.printable {text : String} {m : String × Value} (h : ReadsMember text m) :
    ∀ c ∈ inScript text, 0x20 ≤ c.toNat := by
  obtain ⟨valueText, rfl, hv⟩ := h
  have hcolon : inScript ":" = [':'] := by decide
  intro c hc
  rw [inScript_append, inScript_append, hcolon, List.mem_append, List.mem_append,
    List.mem_singleton] at hc
  rcases hc with (hc | rfl) | hc
  · exact (Reads.string m.1).printable c hc
  · decide
  · exact hv.printable c hc

/-- The first member is read up to what follows it. -/
theorem members?_of_reads {text : String} {m : String × Value} (h : ReadsMember text m)
    {rest : List Char} (hrest : Stops rest) :
    members? (inScript text ++ rest) =
      if next? rest = some '\x7d' then some ([member m], afterNext rest)
      else if next? rest = some ',' ∧ (afterNext rest).length < (inScript text ++ rest).length then
        (members? (afterNext rest)).map fun (members, after) => (member m :: members, after)
      else none := by
  obtain ⟨valueText, hv, htext⟩ := h.inScript_eq
  have hquote : isSpace '"' = false := by decide
  have hcolon : isSpace ':' = false := by decide
  have hshape : inScript text ++ rest =
      '"' :: (m.1.toList.flatMap escaped ++ '"' :: ':' :: (inScript valueText ++ rest)) := by
    rw [htext]
    simp only [List.cons_append, List.append_assoc]
  have hshorter : (inScript valueText ++ rest).length < (inScript text ++ rest).length := by
    rw [hshape]
    simp only [List.length_cons, List.length_append]
    omega
  rw [members?]
  conv_lhs =>
    rw [hshape, next?_cons hquote, if_pos rfl, afterNext_cons hquote, string?_escaped,
      Option.bind_some]
  dsimp only
  rw [next?_cons hcolon, afterNext_cons hcolon, ← hshape, if_pos ⟨rfl, hshorter⟩,
    hv.value rest hrest, Option.bind_some, String.ofList_toList]
  rfl

/-- The members of an object are read back, up to the brace after them. -/
theorem members?_intercalate {texts : List String} {ms : List (String × Value)}
    (h : List.Forall₂ ReadsMember texts ms) (hne : texts ≠ []) (rest : List Char) :
    members? (inScript (",".intercalate texts) ++ '\x7d' :: rest) = some (ms.map member, rest) := by
  have hbrace : isSpace '\x7d' = false := by decide
  have hcomma : isSpace ',' = false := by decide
  induction h with
  | nil => exact absurd rfl hne
  | @cons text m texts ms hm htail ih =>
    cases htail with
    | nil =>
      have hstops : Stops ('\x7d' :: rest) := by
        rintro _ ⟨⟩
        exact .inr (.inr rfl)
      rw [inScript_singleton, members?_of_reads hm hstops, next?_cons hbrace, if_pos rfl,
        afterNext_cons hbrace]
      rfl
    | @cons second n texts ms _ _ =>
      have hmore := ih (List.cons_ne_nil _ _)
      generalize hjoined :
        inScript (",".intercalate (second :: texts)) ++ '\x7d' :: rest = more at hmore
      have hstops : Stops (',' :: more) := by
        rintro _ ⟨⟩
        exact .inl rfl
      have hshorter : more.length < (inScript text ++ ',' :: more).length := by
        rw [List.length_append, List.length_cons]
        omega
      rw [inScript_cons_cons, List.append_assoc, List.cons_append, hjoined,
        members?_of_reads hm hstops, next?_cons hcomma, if_neg (by decide), afterNext_cons hcomma,
        if_pos ⟨rfl, hshorter⟩, hmore]
      rfl

/-- An object is read back if its members are. -/
theorem Reads.object {texts : List String} {ms : List (String × Value)}
    (h : List.Forall₂ ReadsMember texts ms) :
    Reads ("\x7b" ++ ",".intercalate texts ++ "\x7d")
      (.dict (Entries.ofList (ms.map member))) := by
  have hopen : isSpace '\x7b' = false := by decide
  have hclose : isSpace '\x7d' = false := by decide
  have hwhole : inScript ("\x7b" ++ ",".intercalate texts ++ "\x7d") =
      '\x7b' :: (inScript (",".intercalate texts) ++ ['\x7d']) :=
    inScript_enclosed (by decide) (by decide) _
  refine ⟨⟨'\x7b', _, hwhole, hopen, by decide⟩, ?_, ?_⟩
  · have hmembers := forall_mem_of_forall₂ h fun _ _ hm => hm.printable
    rw [hwhole]
    exact printable_enclosed (by decide) (by decide) (printable_intercalate hmembers)
  · intro rest _
    rw [hwhole, List.cons_append, List.append_assoc, List.singleton_append, value?, next?_cons hopen,
      if_neg (by decide), if_pos rfl, afterNext_cons hopen]
    cases h with
    | nil =>
      change (if next? ('\x7d' :: rest) = some '\x7d' then
        some (Value.dict [], afterNext ('\x7d' :: rest)) else _) = _
      rw [next?_cons hclose, if_pos rfl, afterNext_cons hclose]
      rfl
    | @cons text m texts ms hm htail =>
      have hmembers := members?_intercalate (.cons hm htail) (List.cons_ne_nil _ _) rest
      obtain ⟨valueText, -, hbegin⟩ := hm.inScript_eq
      obtain ⟨tail, hjoined⟩ := exists_intercalate_eq hbegin texts ('\x7d' :: rest)
      -- the first member begins with a quote, so the object is not closed at once
      have hne : ¬ next? ('"' :: tail) = some '\x7d' := by
        rw [next?_cons (by decide)]
        decide
      rw [hjoined] at hmembers
      rw [hjoined, if_neg hne, if_pos (by simp), hmembers]
      rfl

end Json

/-! ## Data -/

/-- Data that JSON keeps: nothing, truth values, whole numbers that can be written, texts, and lists,
tuples and mappings of such data, where the keys of a mapping are texts and no two are the same. -/
inductive Value.IsData : Value → Prop where
  | null : IsData .null
  | bool (b : Bool) : IsData (.bool b)
  | int {n : Int} : Numeral.fits n → IsData (.int n)
  | str (s : String) : IsData (.str s)
  | list {items : List Value} : (∀ v ∈ items, IsData v) → IsData (.list items)
  | tuple {items : List Value} : (∀ v ∈ items, IsData v) → IsData (.tuple items)
  | dict {members : List (String × Value)} : (members.map Prod.fst).Nodup →
      (∀ m ∈ members, IsData m.2) → IsData (.dict (members.map Json.member))

mutual

/-- A value with a list for each tuple in it. -/
def Value.listed : Value → Value
  | .list items => .list (Value.allListed items)
  | .tuple items => .list (Value.allListed items)
  | .dict entries => .dict (Value.entriesListed entries)
  | v => v

/-- The items, each with a list for each tuple in it. -/
def Value.allListed : List Value → List Value
  | [] => []
  | v :: rest => v.listed :: Value.allListed rest

/-- The entries, with a list for each tuple in their values. -/
def Value.entriesListed : List (Key × Value) → List (Key × Value)
  | [] => []
  | (k, v) :: rest => (k, v.listed) :: Value.entriesListed rest

end

theorem Value.entriesListed_map_member (members : List (String × Value)) :
    Value.entriesListed (members.map Json.member) =
      (members.map fun m => (m.1, m.2.listed)).map Json.member := by
  induction members with
  | nil => rfl
  | cons m rest ih =>
    rw [List.map_cons, Json.member, Value.entriesListed, ih]
    rfl

/-- A member with a new name comes after all others. -/
theorem Entries.insert_member {members : List (String × Value)} {m : String × Value}
    (h : m.1 ∉ members.map Prod.fst) :
    Entries.insert (.str m.1) m.2 (members.map Json.member) =
      (members ++ [m]).map Json.member := by
  induction members with
  | nil => rfl
  | cons first rest ih =>
    rw [List.map_cons, List.mem_cons, not_or] at h
    have hne : (Key.str first.1).equal (.str m.1) = false := by
      rw [Key.equal, beq_eq_false_iff_ne]
      exact Ne.symm h.1
    rw [List.map_cons, Json.member, Entries.insert, hne, ih h.2]
    rfl

/-- Members of which no two have one name are the entries of their mapping. -/
theorem Entries.ofList_map_member {members : List (String × Value)}
    (h : (members.map Prod.fst).Nodup) :
    Entries.ofList (members.map Json.member) = members.map Json.member := by
  -- the members set so far, and those to come, have different names
  have hfold : ∀ (rest done : List (String × Value)), ((done ++ rest).map Prod.fst).Nodup →
      (rest.map Json.member).foldl (fun entries m => Entries.insert m.1 m.2 entries)
        (done.map Json.member) = (done ++ rest).map Json.member := by
    intro rest
    induction rest with
    | nil =>
      intro done _
      rw [List.append_nil]
      rfl
    | cons m rest ih =>
      intro done hnodup
      have hnew : m.1 ∉ done.map Prod.fst := by
        rw [List.map_append, List.map_cons] at hnodup
        exact fun hmem => (List.nodup_append.mp hnodup).2.2 _ hmem _ List.mem_cons_self rfl
      have hcons : done ++ m :: rest = (done ++ [m]) ++ rest := by
        rw [List.append_assoc, List.singleton_append]
      rw [hcons] at hnodup ⊢
      rw [← ih (done ++ [m]) hnodup, ← Entries.insert_member hnew]
      rfl
  exact hfold members [] h

namespace Json

/-! ## The JSON of data -/

/-- Items that have JSON which is read back have it one after another. -/
theorem writeItems_reads {items : List Value}
    (h : ∀ v ∈ items, ∃ text, write .strict v = .ok text ∧ Reads text v.listed) :
    ∃ texts, writeItems .strict items = .ok texts ∧
      List.Forall₂ Reads texts (Value.allListed items) := by
  induction items with
  | nil => exact ⟨[], rfl, .nil⟩
  | cons v rest ih =>
    obtain ⟨⟨text, hwrite, hreads⟩, hrest⟩ := List.forall_mem_cons.mp h
    obtain ⟨texts, hitems, hall⟩ := ih hrest
    refine ⟨text :: texts, ?_, .cons hreads hall⟩
    rw [writeItems, hwrite, hitems]
    rfl

/-- Members whose values have JSON which is read back have it one after another. -/
theorem writeEntries_reads {members : List (String × Value)}
    (h : ∀ m ∈ members, ∃ text, write .strict m.2 = .ok text ∧ Reads text m.2.listed) :
    ∃ texts, writeEntries .strict (members.map member) = .ok texts ∧
      List.Forall₂ ReadsMember texts (members.map fun m => (m.1, m.2.listed)) := by
  induction members with
  | nil => exact ⟨[], rfl, .nil⟩
  | cons m rest ih =>
    obtain ⟨⟨text, hwrite, hreads⟩, hrest⟩ := List.forall_mem_cons.mp h
    obtain ⟨texts, hmembers, hall⟩ := ih hrest
    refine ⟨(string m.1 ++ ":" ++ text) :: texts, ?_, .cons ⟨text, rfl, hreads⟩ hall⟩
    rw [List.map_cons, member, writeEntries, hwrite, hmembers]
    rfl

/-- Data has JSON that is read back as the data. -/
theorem write_reads {v : Value} (h : v.IsData) :
    ∃ text, write .strict v = .ok text ∧ Reads text v.listed := by
  induction h with
  | null => exact ⟨_, rfl, .null⟩
  | bool b => exact ⟨_, rfl, .bool b⟩
  | @int n hfits =>
    refine ⟨_, ?_, .int n⟩
    rw [write, whole, Numeral.write_of_fits hfits]
    rfl
  | str s => exact ⟨_, rfl, .string s⟩
  | list _ ih | tuple _ ih =>
    obtain ⟨texts, hitems, hall⟩ := writeItems_reads ih
    refine ⟨_, ?_, Reads.array hall⟩
    rw [write, hitems]
    rfl
  | @dict members hnodup _ ih =>
    obtain ⟨texts, hmembers, hall⟩ := writeEntries_reads ih
    -- members with distinct names stay as they are when they are put in one by one
    have hnames : ((members.map fun m => (m.1, m.2.listed)).map Prod.fst).Nodup := by
      rwa [List.map_map]
    have hreads := Reads.object hall
    rw [Entries.ofList_map_member hnames, ← Value.entriesListed_map_member] at hreads
    refine ⟨_, ?_, hreads⟩
    rw [write, hmembers]
    rfl

/-- JSON for a script is exact and safe. There is none exactly if the value holds, at some depth,
something that JSON has no form for, where a read-only mapping at the top counts as a mapping. And the
JSON of data has none of the characters that could end a script and no control in it, and a decoder
gives the data back, with lists for tuples and all members in their order. -/
theorem scriptSafe_exact (v : Value) :
    ((∃ fault, scriptSafe v = .error fault) ↔ ∃ w, (asObject v).Holds w ∧ w.IsForeign) ∧
    ((asObject v).IsData → ∃ text, scriptSafe v = .ok text ∧ ScriptInert text.toList ∧
      (∀ c ∈ text.toList, 0x20 ≤ c.toNat) ∧ decode? text = some (asObject v).listed) := by
  refine ⟨scriptSafe_fails_iff v, ?_⟩
  intro hdata
  obtain ⟨json, hwrite, hreads⟩ := write_reads hdata
  have htext : scriptSafe v = .ok (String.ofList (inScript json)) := by
    rw [scriptSafe, hwrite]
    rfl
  have hdecode : value? (inScript json) = some ((asObject v).listed, []) := by
    rw [← List.append_nil (inScript json)]
    apply hreads.value
    intro c hc
    cases hc
  refine ⟨_, htext, scriptInert_scriptSafe htext, ?_, ?_⟩
  · rw [String.toList_ofList]
    exact hreads.printable
  · rw [decode?, String.toList_ofList, hdecode]
    rfl

/-- The least whole number that has too many digits to be written. -/
def leastUnwritten : Int := Numeral.bound digitLimit

/-- There are whole numbers without JSON, though nothing is in them but the number itself. -/
theorem scriptSafe_leastUnwritten :
    (∃ fault, scriptSafe (.int leastUnwritten) = .error fault) ∧
    (∀ w, (Value.int leastUnwritten).Holds w → w = .int leastUnwritten) := by
  have hforeign : (Value.int leastUnwritten).IsForeign := by
    refine Bool.eq_false_iff.mpr fun hfits => ?_
    have hlt := (Numeral.fits_iff leastUnwritten).mp hfits
    rw [leastUnwritten, Int.natAbs_natCast] at hlt
    exact hlt.false
  refine ⟨(scriptSafe_fails_iff _).mpr ⟨_, .self _, hforeign⟩, ?_⟩
  rintro _ ⟨⟩
  rfl

/-- A read-only mapping with a name that has a quote in it, and a tuple with an end of a script. -/
theorem scriptSafe_exact_script :
    (asObject (.view [(.str "it's", .tuple [.int (-12), .str "</script>\\"]), (.str "", .null)])).IsData ∧
    ∃ text, scriptSafe (.view [(.str "it's", .tuple [.int (-12), .str "</script>\\"]),
        (.str "", .null)]) = .ok text ∧ ScriptInert text.toList ∧ (∀ c ∈ text.toList, 0x20 ≤ c.toNat) ∧
      decode? text =
        some (.dict [(.str "it's", .list [.int (-12), .str "</script>\\"]), (.str "", .null)]) := by
  have hdata : Value.IsData (.dict (List.map member
      [("it's", .tuple [.int (-12), .str "</script>\\"]), ("", .null)])) := by
    refine .dict (by decide) ?_
    intro m hm
    simp only [List.mem_cons, List.not_mem_nil, or_false] at hm
    rcases hm with rfl | rfl
    · refine .tuple fun v hv => ?_
      simp only [List.mem_cons, List.not_mem_nil, or_false] at hv
      rcases hv with rfl | rfl
      · exact .int (by decide)
      · exact .str "</script>\\"
    · exact .null
  exact ⟨hdata, (scriptSafe_exact (.view _)).2 hdata⟩

end Json

end Curly

import Mathlib.Data.List.Basic

/-!
# JSON in ASCII, and JSON lines

Values without fractions, written without blanks and with every character outside of printable
ASCII escaped as UTF-16, and read back with blanks allowed. Reading what was written gives the
value back, whatever characters its texts consist of. What is written has no line break, so that
a file of values, one a line, is cut into the same values again.
-/
namespace SupportOps.Library

inductive Json where
  | null
  | bool (b : Bool)
  | int (n : Int)
  | str (s : String)
  | arr (items : List Json)
  | obj (members : List (String × Json))

namespace Json

/-! ## Writing -/

def hex4 (n : Nat) : List Char :=
  [(n / 4096 % 16).digitChar, (n / 256 % 16).digitChar, (n / 16 % 16).digitChar,
    (n % 16).digitChar]

/-- The UTF-16 code units of a character. -/
def units (c : Char) : List Nat :=
  if c.toNat < 0x10000 then [c.toNat]
  else [0xD800 + (c.toNat - 0x10000) / 0x400, 0xDC00 + (c.toNat - 0x10000) % 0x400]

/-- The escapes of one letter. -/
def shortEscapes : List (Char × Char) :=
  [('"', '"'), ('\\', '\\'), ('\n', 'n'), ('\r', 'r'), ('\t', 't'), (Char.ofNat 12, 'f'),
    (Char.ofNat 8, 'b')]

def escape (c : Char) : List Char :=
  match shortEscapes.lookup c with
  | some letter => ['\\', letter]
  | none =>
    if 0x20 ≤ c.toNat ∧ c.toNat ≤ 0x7E then [c]
    else (units c).flatMap fun n => '\\' :: 'u' :: hex4 n

def quote (s : String) : List Char := '"' :: (s.toList.flatMap escape ++ ['"'])

mutual

def dumps : Json → List Char
  | .null => "null".toList
  | .bool true => "true".toList
  | .bool false => "false".toList
  | .int n => (toString n).toList
  | .str s => quote s
  | .arr [] => ['[', ']']
  | .arr (v :: vs) => '[' :: (dumps v ++ dumpsItems vs)
  | .obj [] => ['{', '}']
  | .obj ((k, v) :: members) => '{' :: (quote k ++ ':' :: (dumps v ++ dumpsMembers members))

/-- The further items, and the end of the array. -/
def dumpsItems : List Json → List Char
  | [] => [']']
  | v :: vs => ',' :: (dumps v ++ dumpsItems vs)

/-- The further members, and the end of the object. -/
def dumpsMembers : List (String × Json) → List Char
  | [] => ['}']
  | (k, v) :: members => ',' :: (quote k ++ ':' :: (dumps v ++ dumpsMembers members))

end

/-! ## Reading -/

def isBlank (c : Char) : Bool := c = ' ' || c = '\t' || c = '\n' || c = '\r'

def skip (text : List Char) : List Char := text.dropWhile isBlank

def hexValue (c : Char) : Option Nat :=
  if '0' ≤ c ∧ c ≤ '9' then some (c.toNat - 48)
  else if 'a' ≤ c ∧ c ≤ 'f' then some (c.toNat - 87)
  else if 'A' ≤ c ∧ c ≤ 'F' then some (c.toNat - 55)
  else none

/-- The letters that may follow a backslash. -/
def unescape (letter : Char) : Option Nat :=
  if letter = '/' then some 47
  else (shortEscapes.find? fun e => e.2 = letter).map fun e => e.1.toNat

/-- The rest of a text, up to its quote: its code units, and what follows. -/
def readUnits : List Char → Option (List Nat × List Char)
  | [] => none
  | '"' :: rest => some ([], rest)
  | '\\' :: 'u' :: a :: b :: c :: d :: rest => do
    let a ← hexValue a
    let b ← hexValue b
    let c ← hexValue c
    let d ← hexValue d
    let (ns, rest) ← readUnits rest
    some ((a * 4096 + b * 256 + c * 16 + d) :: ns, rest)
  | '\\' :: letter :: rest => do
    let n ← unescape letter
    let (ns, rest) ← readUnits rest
    some (n :: ns, rest)
  | c :: rest =>
    if c.toNat < 0x20 ∨ c = '\\' then none
    else do
      let (ns, rest) ← readUnits rest
      some (c.toNat :: ns, rest)

/-- The characters of code units; `none` for a surrogate that stands alone. -/
def combine : List Nat → Option (List Char)
  | [] => some []
  | high :: low :: rest =>
    if 0xD800 ≤ high ∧ high < 0xDC00 ∧ 0xDC00 ≤ low ∧ low < 0xE000 then
      (combine rest).map fun cs =>
        Char.ofNat (0x10000 + (high - 0xD800) * 0x400 + (low - 0xDC00)) :: cs
    else if 0xD800 ≤ high ∧ high < 0xE000 then none
    else (combine (low :: rest)).map fun cs => Char.ofNat high :: cs
  | [n] => if 0xD800 ≤ n ∧ n < 0xE000 then none else some [Char.ofNat n]

/-- The text after its first quote. -/
def readText (text : List Char) : Option (String × List Char) := do
  let (ns, rest) ← readUnits text
  let cs ← combine ns
  some (String.ofList cs, rest)

/-- A number without a fraction and an exponent. -/
def readNat (text : List Char) : Option (Nat × List Char) :=
  let digits := text.takeWhile Char.isDigit
  let rest := text.dropWhile Char.isDigit
  if digits = [] ∨ digits.head? = some '0' ∧ digits ≠ ['0'] then none
  else if rest.head? = some '.' ∨ rest.head? = some 'e' ∨ rest.head? = some 'E' then none
  else some (Nat.ofDigitChars 10 digits 0, rest)

def readInt : List Char → Option (Int × List Char)
  | '-' :: rest => (readNat rest).map fun (n, rest) => (-(n : Int), rest)
  | text => (readNat text).map fun (n, rest) => ((n : Int), rest)

/-- The name of a member and the colon after it. -/
def readKey (text : List Char) : Option (String × List Char) :=
  match skip text with
  | '"' :: rest => do
    let (k, rest) ← readText rest
    match skip rest with
    | ':' :: rest => some (k, rest)
    | _ => none
  | _ => none

mutual

/-- A value and what follows it; `none` if the text is no value or the fuel runs out. -/
def read : Nat → List Char → Option (Json × List Char)
  | 0, _ => none
  | fuel + 1, text =>
    match skip text with
    | 'n' :: 'u' :: 'l' :: 'l' :: rest => some (.null, rest)
    | 't' :: 'r' :: 'u' :: 'e' :: rest => some (.bool true, rest)
    | 'f' :: 'a' :: 'l' :: 's' :: 'e' :: rest => some (.bool false, rest)
    | '"' :: rest => (readText rest).map fun (s, rest) => (.str s, rest)
    | '[' :: rest =>
      match skip rest with
      | ']' :: rest => some (.arr [], rest)
      | rest => (readItems fuel rest).map fun (vs, rest) => (.arr vs, rest)
    | '{' :: rest =>
      match skip rest with
      | '}' :: rest => some (.obj [], rest)
      | rest => (readMembers fuel rest).map fun (members, rest) => (.obj members, rest)
    | rest => (readInt rest).map fun (n, rest) => (.int n, rest)

def readItems : Nat → List Char → Option (List Json × List Char)
  | 0, _ => none
  | fuel + 1, text => do
    let (v, rest) ← read fuel text
    match skip rest with
    | ']' :: rest => some ([v], rest)
    | ',' :: rest =>
      let (vs, rest) ← readItems fuel rest
      some (v :: vs, rest)
    | _ => none

def readMembers : Nat → List Char → Option (List (String × Json) × List Char)
  | 0, _ => none
  | fuel + 1, text => do
    let (k, rest) ← readKey text
    let (v, rest) ← read fuel rest
    match skip rest with
    | '}' :: rest => some ([(k, v)], rest)
    | ',' :: rest =>
      let (members, rest) ← readMembers fuel rest
      some ((k, v) :: members, rest)
    | _ => none

end

/-- The one value of a text. -/
def loads (text : List Char) : Option Json :=
  match read (text.length + 1) text with
  | some (v, rest) => if skip rest = [] then some v else none
  | none => none

/-- A property of the characters of a list, decided one by one. -/
theorem forall_of_all {p : Char → Prop} [DecidablePred p] {cs : List Char}
    (all : (cs.all fun c => decide (p c)) = true) : ∀ c ∈ cs, p c :=
  fun c mem => of_decide_eq_true (List.all_eq_true.mp all c mem)

/-! ## Texts -/

theorem hexValue_digitChar : ∀ d < 16, hexValue d.digitChar = some d := by decide

/-- A code unit in hexadecimal is read back. -/
theorem readUnits_hex4 {n : Nat} (small : n < 0x10000) (rest : List Char) :
    readUnits ('\\' :: 'u' :: (hex4 n ++ rest)) =
      (readUnits rest).map fun (ns, rest) => (n :: ns, rest) := by
  have digit := fun k => hexValue_digitChar (n / k % 16) (Nat.mod_lt _ (by decide))
  have one := digit 1
  rw [Nat.div_one] at one
  have value : n / 4096 % 16 * 4096 + n / 256 % 16 * 256 + n / 16 % 16 * 16 + n % 16 = n := by
    omega
  simp only [hex4, List.cons_append, List.nil_append, readUnits, digit 4096, digit 256, digit 16,
    one, Option.bind_eq_bind, Option.bind_some, value]
  cases readUnits rest <;> rfl

theorem toNat_scalar (c : Char) :
    c.toNat < 0xD800 ∨ 0xDFFF < c.toNat ∧ c.toNat < 0x110000 := c.valid

theorem units_lt (c : Char) : ∀ n ∈ units c, n < 0x10000 := by
  have := toNat_scalar c
  unfold units
  split
  · simpa
  · simp only [List.mem_cons, List.not_mem_nil, or_false, forall_eq_or_imp, forall_eq]
    omega

/-- Escaped code units are read back. -/
theorem readUnits_units {ns : List Nat} (small : ∀ n ∈ ns, n < 0x10000) (rest : List Char) :
    readUnits ((ns.flatMap fun n => '\\' :: 'u' :: hex4 n) ++ rest) =
      (readUnits rest).map fun (ms, rest) => (ns ++ ms, rest) := by
  induction ns with
  | nil => cases h : readUnits rest <;> simp [h]
  | cons n ns ih =>
    have first := readUnits_hex4 (small n (.head _))
      ((ns.flatMap fun n => '\\' :: 'u' :: hex4 n) ++ rest)
    rw [ih fun m hm => small m (.tail _ hm)] at first
    simp only [List.flatMap_cons, List.cons_append, List.append_assoc, first]
    cases readUnits rest <;> rfl

/-- A character that stands for itself. -/
theorem readUnits_plain {c : Char} (printable : 0x20 ≤ c.toNat) (quote : c ≠ '"')
    (backslash : c ≠ '\\') (rest : List Char) :
    readUnits (c :: rest) = (readUnits rest).map fun (ns, rest) => (c.toNat :: ns, rest) := by
  rw [readUnits.eq_def]
  split
  · next h => cases h
  · next h => exact absurd (List.cons.inj h).1 quote
  · next h => exact absurd (List.cons.inj h).1 backslash
  · next h => exact absurd (List.cons.inj h).1 backslash
  · next h =>
    obtain ⟨rfl, rfl⟩ := List.cons.inj h
    rw [if_neg fun bad => bad.elim (Nat.not_lt.mpr printable) backslash]
    cases readUnits rest <;> rfl

theorem readUnits_escape (c : Char) (rest : List Char) :
    readUnits (escape c ++ rest) =
      (readUnits rest).map fun (ns, rest) => (units c ++ ns, rest) := by
  unfold escape
  split
  · next letter found =>
    obtain ⟨before, after, split, -⟩ := List.lookup_eq_some_iff.mp found
    have short : (c, letter) ∈ shortEscapes := by simp [split]
    have read : ∀ e ∈ shortEscapes, readUnits ('\\' :: e.2 :: rest) =
        (readUnits rest).map fun (ns, rest) => (e.1.toNat :: ns, rest) := by
      simp only [shortEscapes, List.forall_mem_cons, List.not_mem_nil, false_implies,
        implies_true, and_true]
      refine ⟨?_, ?_, ?_, ?_, ?_, ?_, ?_⟩ <;>
        simp [readUnits, unescape, shortEscapes] <;> cases readUnits rest <;> rfl
    have small : ∀ e ∈ shortEscapes, units e.1 = [e.1.toNat] := by decide
    rw [small _ short]
    exact read _ short
  · next plain =>
    split
    · next printable =>
      have small : units c = [c.toNat] := if_pos (by omega)
      rw [small]
      refine readUnits_plain printable.1 ?_ ?_ rest
      · rintro rfl
        exact absurd plain (by decide)
      · rintro rfl
        exact absurd plain (by decide)
    · exact readUnits_units (units_lt c) rest

theorem readUnits_flatMap (cs rest : List Char) :
    readUnits (cs.flatMap escape ++ rest) =
      (readUnits rest).map fun (ns, rest) => (cs.flatMap units ++ ns, rest) := by
  induction cs with
  | nil => cases h : readUnits rest <;> simp [h]
  | cons c cs ih =>
    rw [List.flatMap_cons, List.append_assoc, readUnits_escape, ih, List.flatMap_cons]
    cases readUnits rest <;> simp

/-- The code units of a character are combined to it. -/
theorem combine_units (c : Char) (ns : List Nat) :
    combine (units c ++ ns) = (combine ns).map fun cs => c :: cs := by
  have scalar := toNat_scalar c
  unfold units
  split
  · next small =>
    have alone : ¬ (0xD800 ≤ c.toNat ∧ c.toNat < 0xE000) := by omega
    cases ns with
    | nil =>
      change (if _ then none else _) = _
      rw [if_neg alone, Char.ofNat_toNat]
      rfl
    | cons low rest =>
      change (if _ then _ else if _ then none else _) = _
      rw [if_neg (by omega), if_neg alone, Char.ofNat_toNat]
  · next large =>
    set n := c.toNat - 0x10000 with offset
    have pair : 0xD800 ≤ 0xD800 + n / 0x400 ∧ 0xD800 + n / 0x400 < 0xDC00 ∧
        0xDC00 ≤ 0xDC00 + n % 0x400 ∧ 0xDC00 + n % 0x400 < 0xE000 := by omega
    have value : 0x10000 + (0xD800 + n / 0x400 - 0xD800) * 0x400 +
        (0xDC00 + n % 0x400 - 0xDC00) = c.toNat := by omega
    change combine ((0xD800 + n / 0x400) :: (0xDC00 + n % 0x400) :: ns) = _
    rw [combine, if_pos pair, value, Char.ofNat_toNat]

theorem combine_flatMap (cs : List Char) : combine (cs.flatMap units) = some cs := by
  induction cs with
  | nil => rfl
  | cons c cs ih => rw [List.flatMap_cons, combine_units, ih, Option.map_some]

/-- A quoted text is read back, and nothing after its last quote. -/
theorem readText_quote (s : String) (rest : List Char) :
    readText (s.toList.flatMap escape ++ '"' :: rest) = some (s, rest) := by
  have ended : readUnits ('"' :: rest) = some ([], rest) := rfl
  simp [readText, readUnits_flatMap, ended, combine_flatMap]

theorem readKey_quote (k : String) (rest : List Char) :
    readKey (quote k ++ ':' :: rest) = some (k, rest) := by
  have text := readText_quote k (':' :: rest)
  simp only [quote, List.cons_append, List.append_assoc, List.nil_append]
  change (do
    let (k, rest) ← readText (k.toList.flatMap escape ++ '"' :: ':' :: rest)
    match skip rest with
    | ':' :: rest => some (k, rest)
    | _ => none) = _
  rw [text]
  rfl

/-! ## Numbers -/

/-- No digit, fraction or exponent goes on. -/
def Ends (rest : List Char) : Prop :=
  ∀ c ∈ rest.head?, c.isDigit = false ∧ c ≠ '.' ∧ c ≠ 'e' ∧ c ≠ 'E'

theorem head?_toDigits {n : Nat} (zero : (Nat.toDigits 10 n).head? = some '0') : n = 0 := by
  induction n using Nat.strongRecOn with
  | ind n ih =>
    rw [Nat.toDigits_eq_if (by decide)] at zero
    split at zero
    · next small =>
      have digit : ∀ d < 10, d.digitChar = '0' → d = 0 := by decide
      exact digit n small (Option.some.inj zero)
    · next large =>
      rw [List.head?_append_of_ne_nil _ Nat.toDigits_ne_nil] at zero
      have := ih (n / 10) (by omega) zero
      omega

theorem readNat_toDigits (n : Nat) {rest : List Char} (ends : Ends rest) :
    readNat (Nat.toDigits 10 n ++ rest) = some (n, rest) := by
  have digits : ∀ c ∈ Nat.toDigits 10 n, c.isDigit = true := fun c hc =>
    Nat.isDigit_of_mem_toDigits (by decide) (by decide) hc
  have stop : rest.takeWhile Char.isDigit = [] ∧ rest.dropWhile Char.isDigit = rest := by
    cases rest with
    | nil => exact ⟨rfl, rfl⟩
    | cons c cs => simp [(ends c rfl).1]
  have number : (Nat.toDigits 10 n ++ rest).takeWhile Char.isDigit = Nat.toDigits 10 n := by
    rw [List.takeWhile_append_of_pos digits, stop.1, List.append_nil]
  have after : (Nat.toDigits 10 n ++ rest).dropWhile Char.isDigit = rest := by
    rw [List.dropWhile_append_of_pos digits, stop.2]
  have leading : ¬ (Nat.toDigits 10 n = [] ∨
      (Nat.toDigits 10 n).head? = some '0' ∧ Nat.toDigits 10 n ≠ ['0']) := by
    rintro (none | ⟨zero, more⟩)
    · exact Nat.toDigits_ne_nil none
    · rw [head?_toDigits zero] at more
      exact more rfl
  have last : ¬ (rest.head? = some '.' ∨ rest.head? = some 'e' ∨ rest.head? = some 'E') := by
    rintro (next | next | next)
    · exact (ends _ next).2.1 rfl
    · exact (ends _ next).2.2.1 rfl
    · exact (ends _ next).2.2.2 rfl
  simp only [readNat, number, after]
  rw [if_neg leading, if_neg last, Nat.ofDigitChars_ten_toDigits]

theorem readInt_of_unsigned {text : List Char} (unsigned : text.head? ≠ some '-') :
    readInt text = (readNat text).map fun (n, rest) => ((n : Int), rest) := by
  unfold readInt
  split
  · exact absurd rfl unsigned
  · rfl

theorem readInt_toString (n : Int) {rest : List Char} (ends : Ends rest) :
    readInt ((toString n).toList ++ rest) = some (n, rest) := by
  rw [Int.toString_eq_repr, Int.repr_eq_if]
  split
  · next nonneg =>
    have unsigned : (Nat.toDigits 10 n.toNat ++ rest).head? ≠ some '-' := by
      intro sign
      rw [List.head?_append_of_ne_nil _ Nat.toDigits_ne_nil] at sign
      have digit :=
        Nat.isDigit_of_mem_toDigits (by decide) (by decide) (List.mem_of_mem_head? sign)
      exact absurd digit (by decide)
    rw [Nat.toList_repr, readInt_of_unsigned unsigned, readNat_toDigits _ ends, Option.map_some]
    exact congrArg (fun k => some (k, rest)) (Int.toNat_of_nonneg nonneg)
  · next negative =>
    rw [String.toList_append, Nat.toList_repr]
    change (readNat (Nat.toDigits 10 (-n).toNat ++ rest)).map _ = _
    rw [readNat_toDigits _ ends, Option.map_some]
    have back : -(((-n).toNat : Nat) : Int) = n := by omega
    exact congrArg (fun k => some (k, rest)) back

theorem toString_head (n : Int) : ∃ c text, (toString n).toList = c :: text ∧
    (c = '-' ∨ c.isDigit = true) := by
  rw [Int.toString_eq_repr, Int.repr_eq_if]
  split
  · rw [Nat.toList_repr]
    cases digits : Nat.toDigits 10 n.toNat with
    | nil => exact absurd digits Nat.toDigits_ne_nil
    | cons c cs =>
      have digit : ∀ d ∈ Nat.toDigits 10 n.toNat, d.isDigit = true := fun _ mem =>
        Nat.isDigit_of_mem_toDigits (by decide) (by decide) mem
      exact ⟨c, cs, rfl, .inr (digit c (digits ▸ List.mem_cons_self ..))⟩
  · rw [String.toList_append]
    exact ⟨'-', _, rfl, .inl rfl⟩

/-! ## Values -/

/-- What a written value starts with. -/
def Starts (c : Char) : Prop := isBlank c = false ∧ c ≠ ']' ∧ c ≠ '}'

instance (c : Char) : Decidable (Starts c) := inferInstanceAs (Decidable (_ ∧ _))

theorem starts_of_isDigit {c : Char} (digit : c.isDigit = true) : Starts c := by
  refine ⟨?_, ?_, ?_⟩
  · by_contra blank
    simp only [isBlank, Bool.or_eq_false_iff, decide_eq_false_iff_not, not_and_or, not_not]
      at blank
    rcases blank with ((rfl | rfl) | rfl) | rfl <;> exact absurd digit (by decide)
  · rintro rfl
    exact absurd digit (by decide)
  · rintro rfl
    exact absurd digit (by decide)

theorem dumps_head (v : Json) : ∃ c text, dumps v = c :: text ∧ Starts c := by
  have starts : ∀ c ∈ ['n', 't', 'f', '-', '"', '[', '{'], Starts c := forall_of_all (by decide)
  cases v with
  | null => exact ⟨_, _, rfl, starts _ (by decide)⟩
  | bool b => cases b <;> exact ⟨_, _, rfl, starts _ (by decide)⟩
  | int n =>
    obtain ⟨c, text, head, sign | digit⟩ := toString_head n
    · exact ⟨c, text, by rw [dumps, head], sign ▸ starts _ (by decide)⟩
    · exact ⟨c, text, by rw [dumps, head], starts_of_isDigit digit⟩
  | str s => exact ⟨_, _, rfl, starts _ (by decide)⟩
  | arr items => cases items <;> exact ⟨_, _, rfl, starts _ (by decide)⟩
  | obj members => cases members <;> exact ⟨_, _, rfl, starts _ (by decide)⟩

theorem skip_cons {c : Char} (solid : isBlank c = false) (rest : List Char) :
    skip (c :: rest) = c :: rest := by
  rw [skip, List.dropWhile_cons_of_neg (by simp [solid])]

theorem ends_cons {c : Char} (h : c ∈ [',', ']', '}']) (rest : List Char) : Ends (c :: rest) := by
  have ends : ∀ c ∈ [',', ']', '}'], c.isDigit = false ∧ c ≠ '.' ∧ c ≠ 'e' ∧ c ≠ 'E' :=
    forall_of_all (by decide)
  intro d hd
  cases hd
  exact ends c h

/-- A number is read where no other value starts. -/
theorem read_toString (n : Int) (fuel : Nat) {rest : List Char} (ends : Ends rest) :
    read (fuel + 1) ((toString n).toList ++ rest) = some (.int n, rest) := by
  have number := readInt_toString n ends
  obtain ⟨c, text, head, first⟩ := toString_head n
  have other : c ∉ ['n', 't', 'f', '"', '[', '{'] := by
    intro mem
    rcases first with rfl | digit
    · exact absurd mem (by decide)
    · have letters : ∀ d ∈ ['n', 't', 'f', '"', '[', '{'], d.isDigit = false :=
        forall_of_all (by decide)
      rw [letters c mem] at digit
      cases digit
  have solid : isBlank c = false := by
    rcases first with rfl | digit
    · rfl
    · exact (starts_of_isDigit digit).1
  rw [head, List.cons_append] at number ⊢
  rw [read, skip_cons solid]
  split
  case h_7 => rw [number, Option.map_some]
  all_goals
    next here =>
      obtain ⟨rfl, -⟩ := List.cons.inj here
      exact absurd other (by decide)

section Steps

variable {fuel : Nat} {c : Char} {text rest : List Char} {k : String} {v : Json}

theorem read_arr (starts : Starts c) : read (fuel + 1) ('[' :: c :: rest) =
    (readItems fuel (c :: rest)).map fun (vs, rest) => (.arr vs, rest) := by
  change (match skip (c :: rest) with
    | ']' :: rest => some (Json.arr [], rest)
    | rest => (readItems fuel rest).map fun (vs, rest) => (Json.arr vs, rest)) = _
  rw [skip_cons starts.1]
  split
  · next here => exact absurd (List.cons.inj here).1 starts.2.1
  · rfl

theorem read_obj (starts : Starts c) : read (fuel + 1) ('{' :: c :: rest) =
    (readMembers fuel (c :: rest)).map fun (members, rest) => (.obj members, rest) := by
  change (match skip (c :: rest) with
    | '}' :: rest => some (Json.obj [], rest)
    | rest => (readMembers fuel rest).map fun (members, rest) => (Json.obj members, rest)) = _
  rw [skip_cons starts.1]
  split
  · next here => exact absurd (List.cons.inj here).1 starts.2.2
  · rfl

theorem readItems_last (item : read fuel text = some (v, ']' :: rest)) :
    readItems (fuel + 1) text = some ([v], rest) := by
  rw [readItems, item]
  rfl

theorem readItems_more (item : read fuel text = some (v, ',' :: rest)) :
    readItems (fuel + 1) text = (readItems fuel rest).map fun (vs, rest) => (v :: vs, rest) := by
  rw [readItems, item]
  change (readItems fuel rest).bind _ = _
  cases readItems fuel rest <;> rfl

variable {value : List Char}

theorem readMembers_last (key : readKey text = some (k, value))
    (member : read fuel value = some (v, '}' :: rest)) :
    readMembers (fuel + 1) text = some ([(k, v)], rest) := by
  rw [readMembers, key]
  change (read fuel value).bind _ = _
  rw [member]
  rfl

theorem readMembers_more (key : readKey text = some (k, value))
    (member : read fuel value = some (v, ',' :: rest)) :
    readMembers (fuel + 1) text =
      (readMembers fuel rest).map fun (members, rest) => ((k, v) :: members, rest) := by
  rw [readMembers, key]
  change (read fuel value).bind _ = _
  rw [member]
  change (readMembers fuel rest).bind _ = _
  cases readMembers fuel rest <;> rfl

end Steps

theorem length_dumps_pos (v : Json) : 0 < (dumps v).length := by
  obtain ⟨c, text, head, -⟩ := dumps_head v
  rw [head]
  exact Nat.succ_pos _

mutual

/-- A written value is read back, and nothing after it. -/
theorem read_dumps : ∀ (v : Json) {fuel : Nat} {rest : List Char}, (dumps v).length < fuel →
    Ends rest → read fuel (dumps v ++ rest) = some (v, rest)
  | _, 0, _, enough, _ => absurd enough (Nat.not_lt_zero _)
  | .null, fuel + 1, rest, _, _ => rfl
  | .bool true, fuel + 1, rest, _, _ => rfl
  | .bool false, fuel + 1, rest, _, _ => rfl
  | .int n, fuel + 1, rest, _, ends => by
    rw [dumps]
    exact read_toString n fuel ends
  | .str s, fuel + 1, rest, _, _ => by
    have text := readText_quote s rest
    rw [dumps, quote, List.cons_append, List.append_assoc, List.cons_append, List.nil_append]
    change (readText (s.toList.flatMap escape ++ '"' :: rest)).map _ = _
    rw [text, Option.map_some]
  | .arr [], fuel + 1, rest, _, _ => rfl
  | .arr (v :: vs), fuel + 1, rest, enough, _ => by
    rw [dumps, List.length_cons] at enough
    have items : readItems fuel (dumps v ++ dumpsItems vs ++ rest) = some (v :: vs, rest) :=
      readItems_dumps v vs (Nat.lt_of_succ_lt_succ enough)
    obtain ⟨c, text, head, starts⟩ := dumps_head v
    rw [dumps]
    rw [head] at items ⊢
    simp only [List.cons_append] at items ⊢
    rw [read_arr starts, items, Option.map_some]
  | .obj [], fuel + 1, rest, _, _ => rfl
  | .obj ((k, v) :: members), fuel + 1, rest, enough, _ => by
    rw [dumps, List.length_cons] at enough
    have more : readMembers fuel
        (quote k ++ ':' :: (dumps v ++ dumpsMembers members) ++ rest) =
        some ((k, v) :: members, rest) :=
      readMembers_dumps k v members (Nat.lt_of_succ_lt_succ enough)
    have starts : Starts '"' := by decide
    rw [dumps]
    simp only [quote, List.cons_append] at more ⊢
    rw [read_obj starts, more, Option.map_some]
termination_by v => sizeOf v

theorem readItems_dumps : ∀ (v : Json) (vs : List Json) {fuel : Nat} {rest : List Char},
    (dumps v ++ dumpsItems vs).length < fuel →
    readItems fuel (dumps v ++ dumpsItems vs ++ rest) = some (v :: vs, rest)
  | _, _, 0, _, enough => absurd enough (Nat.not_lt_zero _)
  | v, [], fuel + 1, rest, enough => by
    rw [dumpsItems, List.length_append, List.length_singleton] at enough
    have item : read fuel (dumps v ++ ']' :: rest) = some (v, ']' :: rest) :=
      read_dumps v (Nat.lt_of_succ_lt_succ enough) (ends_cons (by decide) _)
    rw [dumpsItems, List.append_assoc, List.cons_append, List.nil_append]
    exact readItems_last item
  | v, w :: ws, fuel + 1, rest, enough => by
    have pos := length_dumps_pos v
    rw [dumpsItems, List.length_append, List.length_cons] at enough
    rw [dumpsItems, List.append_assoc, List.cons_append]
    have item : read fuel (dumps v ++ ',' :: (dumps w ++ dumpsItems ws ++ rest)) =
        some (v, ',' :: (dumps w ++ dumpsItems ws ++ rest)) :=
      read_dumps v (by omega) (ends_cons (by decide) _)
    have items : readItems fuel (dumps w ++ dumpsItems ws ++ rest) = some (w :: ws, rest) :=
      readItems_dumps w ws (by omega)
    rw [readItems_more item, items, Option.map_some]
termination_by v vs => sizeOf v + sizeOf vs

theorem readMembers_dumps : ∀ (k : String) (v : Json) (members : List (String × Json))
    {fuel : Nat} {rest : List Char},
    (quote k ++ ':' :: (dumps v ++ dumpsMembers members)).length < fuel →
    readMembers fuel (quote k ++ ':' :: (dumps v ++ dumpsMembers members) ++ rest) =
      some ((k, v) :: members, rest)
  | _, _, _, 0, _, enough => absurd enough (Nat.not_lt_zero _)
  | k, v, [], fuel + 1, rest, enough => by
    rw [dumpsMembers, List.length_append, List.length_cons, List.length_append] at enough
    have member : read fuel (dumps v ++ '}' :: rest) = some (v, '}' :: rest) :=
      read_dumps v (by omega) (ends_cons (by decide) _)
    rw [dumpsMembers, List.append_assoc, List.cons_append, List.append_assoc, List.cons_append,
      List.nil_append]
    exact readMembers_last (readKey_quote k _) member
  | k, v, (l, w) :: members, fuel + 1, rest, enough => by
    rw [dumpsMembers, List.length_append, List.length_cons, List.length_append,
      List.length_cons] at enough
    rw [dumpsMembers, List.append_assoc, List.cons_append, List.append_assoc, List.cons_append]
    have pos := length_dumps_pos v
    have member : read fuel (dumps v ++
        ',' :: (quote l ++ ':' :: (dumps w ++ dumpsMembers members) ++ rest)) =
        some (v, ',' :: (quote l ++ ':' :: (dumps w ++ dumpsMembers members) ++ rest)) :=
      read_dumps v (by omega) (ends_cons (by decide) _)
    have more : readMembers fuel
        (quote l ++ ':' :: (dumps w ++ dumpsMembers members) ++ rest) =
        some ((l, w) :: members, rest) :=
      readMembers_dumps l w members (by omega)
    rw [readMembers_more (readKey_quote k _) member, more, Option.map_some]
termination_by _ v members => sizeOf v + sizeOf members

end

/-- A written value is read back, blanks after it or not. -/
theorem loads_dumps (v : Json) {blanks : List Char} (blank : skip blanks = [])
    (ends : Ends blanks) : loads (dumps v ++ blanks) = some v := by
  have enough : (dumps v).length < (dumps v ++ blanks).length + 1 := by
    rw [List.length_append]
    omega
  rw [loads, read_dumps v enough ends]
  exact if_pos blank

/-! ## Written characters -/

/-- Printable ASCII. -/
def Printable (c : Char) : Prop := 0x20 ≤ c.toNat ∧ c.toNat ≤ 0x7E

instance (c : Char) : Decidable (Printable c) := inferInstanceAs (Decidable (_ ∧ _))

theorem printable_digitChar : ∀ d < 16, Printable d.digitChar := by decide

theorem printable_hex4 (n : Nat) : ∀ c ∈ hex4 n, Printable c := by
  have digit := fun k => printable_digitChar (n / k % 16) (Nat.mod_lt _ (by decide))
  have last := printable_digitChar (n % 16) (Nat.mod_lt _ (by decide))
  simp only [hex4, List.forall_mem_cons]
  exact ⟨digit 4096, digit 256, digit 16, last, fun _ mem => by cases mem⟩

theorem printable_escape (c : Char) : ∀ d ∈ escape c, Printable d := by
  intro d mem
  unfold escape at mem
  split at mem
  · next letter found =>
    obtain ⟨before, after, split, -⟩ := List.lookup_eq_some_iff.mp found
    have short : (c, letter) ∈ shortEscapes := by simp [split]
    have letters : ∀ e ∈ shortEscapes, Printable e.2 := by decide
    have slash : Printable '\\' := by decide
    rcases List.mem_cons.mp mem with rfl | second
    · exact slash
    · exact List.mem_singleton.mp second ▸ letters _ short
  · split at mem
    · next printable => exact List.mem_singleton.mp mem ▸ printable
    · obtain ⟨n, -, mem⟩ := List.mem_flatMap.mp mem
      have start : ∀ e ∈ ['\\', 'u'], Printable e := forall_of_all (by decide)
      rcases List.mem_cons.mp mem with rfl | mem
      · exact start _ (.head _)
      · rcases List.mem_cons.mp mem with rfl | mem
        · exact start _ (.tail _ (.head _))
        · exact printable_hex4 n d mem

theorem printable_quote (s : String) : ∀ c ∈ quote s, Printable c := by
  have mark : Printable '"' := by decide
  simp only [quote, List.forall_mem_cons, List.forall_mem_append, List.mem_flatMap]
  refine ⟨mark, ?_, mark, fun _ mem => by cases mem⟩
  rintro c ⟨d, -, mem⟩
  exact printable_escape d c mem

theorem printable_toString (n : Int) : ∀ c ∈ (toString n).toList, Printable c := by
  have digits : ∀ m : Nat, ∀ c ∈ Nat.toDigits 10 m, Printable c := by
    intro m c mem
    have digit := Nat.isDigit_of_mem_toDigits (by decide) (by decide) mem
    simp only [Char.isDigit, Bool.and_eq_true, decide_eq_true_eq, ge_iff_le,
      UInt32.le_iff_toNat_le] at digit
    exact ⟨Nat.le_trans (by decide) digit.1, Nat.le_trans digit.2 (by decide)⟩
  have sign : Printable '-' := by decide
  rw [Int.toString_eq_repr, Int.repr_eq_if]
  split
  · rw [Nat.toList_repr]
    exact digits _
  · rw [String.toList_append, Nat.toList_repr]
    exact List.forall_mem_cons.mpr ⟨sign, digits _⟩

mutual

theorem printable_dumps : ∀ (v : Json), ∀ c ∈ dumps v, Printable c
  | .null => forall_of_all (by decide)
  | .bool true => forall_of_all (by decide)
  | .bool false => forall_of_all (by decide)
  | .int n => by
    rw [dumps]
    exact printable_toString n
  | .str s => by
    rw [dumps]
    exact printable_quote s
  | .arr [] => forall_of_all (by decide)
  | .arr (v :: vs) => by
    rw [dumps, List.forall_mem_cons, List.forall_mem_append]
    exact ⟨by decide, printable_dumps v, printable_dumpsItems vs⟩
  | .obj [] => forall_of_all (by decide)
  | .obj ((k, v) :: members) => by
    rw [dumps, List.forall_mem_cons, List.forall_mem_append, List.forall_mem_cons,
      List.forall_mem_append]
    exact ⟨by decide, printable_quote k, by decide, printable_dumps v,
      printable_dumpsMembers members⟩

theorem printable_dumpsItems : ∀ (vs : List Json), ∀ c ∈ dumpsItems vs, Printable c
  | [] => forall_of_all (by decide)
  | v :: vs => by
    rw [dumpsItems, List.forall_mem_cons, List.forall_mem_append]
    exact ⟨by decide, printable_dumps v, printable_dumpsItems vs⟩

theorem printable_dumpsMembers :
    ∀ (members : List (String × Json)), ∀ c ∈ dumpsMembers members, Printable c
  | [] => forall_of_all (by decide)
  | (k, v) :: members => by
    rw [dumpsMembers, List.forall_mem_cons, List.forall_mem_append, List.forall_mem_cons,
      List.forall_mem_append]
    exact ⟨by decide, printable_quote k, by decide, printable_dumps v,
      printable_dumpsMembers members⟩

end

/-! ## Lines -/

/-- What a text file ends its lines with. -/
inductive Newline where
  | lf | crlf
  deriving DecidableEq, Repr

def Newline.chars : Newline → List Char
  | .lf => ['\n']
  | .crlf => ['\r', '\n']

/-- A text as it is written to a file. -/
def Newline.write (newline : Newline) (text : List Char) : List Char :=
  text.flatMap fun c => if c = '\n' then newline.chars else [c]

/-- The lines of a file without their ends, and whether each has one; a line ends with a carriage
return, a line feed, or both. -/
def splitLines : List Char → List (List Char × Bool)
  | [] => []
  | '\r' :: '\n' :: rest => ([], true) :: splitLines rest
  | '\r' :: rest => ([], true) :: splitLines rest
  | '\n' :: rest => ([], true) :: splitLines rest
  | c :: rest =>
    match splitLines rest with
    | [] => [([c], false)]
    | (line, ended) :: lines => (c :: line, ended) :: lines

theorem splitLines_cons {c : Char} (printable : Printable c) {rest line : List Char}
    {ended : Bool} {lines : List (List Char × Bool)}
    (next : splitLines rest = (line, ended) :: lines) :
    splitLines (c :: rest) = (c :: line, ended) :: lines := by
  have plain : ∀ d ∈ ['\r', '\n'], c ≠ d := by
    have breaks : ∀ d ∈ ['\r', '\n'], ¬ Printable d := forall_of_all (by decide)
    rintro d mem rfl
    exact breaks c mem printable
  rw [splitLines.eq_def]
  split
  · next h => cases h
  · next h => exact absurd (List.cons.inj h).1 (plain _ (.head _))
  · next h => exact absurd (List.cons.inj h).1 (plain _ (.head _))
  · next h => exact absurd (List.cons.inj h).1 (plain _ (.tail _ (.head _)))
  · next h =>
    obtain ⟨rfl, rfl⟩ := List.cons.inj h
    rw [next]

theorem splitLines_append {text : List Char} (printable : ∀ c ∈ text, Printable c)
    (newline : Newline) (rest : List Char) :
    splitLines (text ++ (newline.chars ++ rest)) = (text, true) :: splitLines rest := by
  induction text with
  | nil =>
    cases newline
    · change splitLines ('\n' :: rest) = _
      rw [splitLines]
    · change splitLines ('\r' :: '\n' :: rest) = _
      rw [splitLines]
  | cons c text ih =>
    rw [List.forall_mem_cons] at printable
    exact splitLines_cons printable.1 (ih printable.2)

theorem Newline.write_printable (newline : Newline) {text : List Char}
    (printable : ∀ c ∈ text, Printable c) : newline.write text = text := by
  have plain : ¬ Printable '\n' := by decide
  induction text with
  | nil => rfl
  | cons c text ih =>
    rw [List.forall_mem_cons] at printable
    have other : c ≠ '\n' := fun same => plain (same ▸ printable.1)
    have rest := ih printable.2
    unfold Newline.write at rest ⊢
    rw [List.flatMap_cons, if_neg other, rest]
    rfl

/-- One value a line. -/
def dumpLines (newline : Newline) (vs : List Json) : List Char :=
  vs.flatMap fun v => newline.write (dumps v ++ ['\n'])

/-- The lines of a file of values are the values. -/
theorem splitLines_dumpLines (newline : Newline) (vs : List Json) :
    splitLines (dumpLines newline vs) = vs.map fun v => (dumps v, true) := by
  induction vs with
  | nil => rfl
  | cons v vs ih =>
    have text := newline.write_printable (printable_dumps v)
    have line : newline.write (dumps v ++ ['\n']) = dumps v ++ newline.chars := by
      unfold Newline.write at text ⊢
      rw [List.flatMap_append, text]
      simp
    unfold dumpLines at ih ⊢
    rw [List.flatMap_cons, line, List.append_assoc, splitLines_append (printable_dumps v), ih,
      List.map_cons]

end Json

end SupportOps.Library

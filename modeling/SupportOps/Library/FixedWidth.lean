import Mathlib.Algebra.GroupWithZero.Nat
import Mathlib.Data.Char
import Mathlib.Data.List.Basic
import Mathlib.Order.Lattice

/-!
# Texts of fixed width

Numbers written one after another, each with a fixed number of decimal digits and after a mark of
its own. Such texts compare as the lists of their numbers do, and can be read back.
-/
namespace SupportOps.Library

/-! ## Lists compared piece by piece -/

theorem append_lt_append_iff {α : Type*} [LinearOrder α] {xs ys us vs : List α}
    (same : xs.length = ys.length) : xs ++ us < ys ++ vs ↔ xs < ys ∨ xs = ys ∧ us < vs := by
  induction xs generalizing ys with
  | nil =>
    obtain rfl : ys = [] := List.length_eq_zero_iff.mp same.symm
    simp
  | cons x xs ih =>
    cases ys with
    | nil => cases same
    | cons y ys =>
      rw [List.cons_append, List.cons_append, List.cons_lt_cons_iff, List.cons_lt_cons_iff,
        ih (Nat.succ.inj same), List.cons.injEq]
      grind

/-- Numbers compare by quotient and remainder. -/
theorem lt_iff_div_mod (b m n : Nat) : m < n ↔ m / b < n / b ∨ m / b = n / b ∧ m % b < n % b := by
  have hm := Nat.div_add_mod m b
  have hn := Nat.div_add_mod n b
  constructor
  · intro less
    have le : m / b ≤ n / b := Nat.div_le_div_right (Nat.le_of_lt less)
    rcases Nat.lt_or_eq_of_le le with quotient | quotient
    · exact .inl quotient
    · refine .inr ⟨quotient, ?_⟩
      rw [quotient] at hm
      omega
  · rintro (quotient | ⟨quotient, remainder⟩)
    · exact Nat.lt_of_div_lt_div quotient
    · rw [quotient] at hm
      omega

/-- The places of a number, by the sizes of all but the first of them, the last place first. -/
def places : List Nat → Nat → List Nat
  | [], n => [n]
  | b :: bs, n => places bs (n / b) ++ [n % b]

@[simp] theorem length_places (bs : List Nat) (n : Nat) : (places bs n).length = bs.length + 1 := by
  induction bs generalizing n with
  | nil => rfl
  | cons b bs ih => rw [places, List.length_append, ih]; rfl

theorem places_inj {bs : List Nat} {m n : Nat} : places bs m = places bs n ↔ m = n := by
  refine ⟨fun same => ?_, fun same => same ▸ rfl⟩
  induction bs generalizing m n with
  | nil => simpa [places] using same
  | cons b bs ih =>
    obtain ⟨quotient, remainder⟩ := List.append_inj same (by simp)
    rw [← Nat.div_add_mod m b, ← Nat.div_add_mod n b, ih quotient,
      List.singleton_inj.mp remainder]

theorem places_lt_iff {bs : List Nat} {m n : Nat} : places bs m < places bs n ↔ m < n := by
  induction bs generalizing m n with
  | nil => simp [places, List.cons_lt_cons_iff]
  | cons b bs ih =>
    rw [places, places, append_lt_append_iff (by simp), ih, places_inj, lt_iff_div_mod b m n]
    simp [List.cons_lt_cons_iff]

/-! ## Digits -/

/-- The last `w` decimal digits, the most significant one first. -/
def digits : Nat → Nat → List Char
  | 0, _ => []
  | w + 1, n => Nat.digitChar (n / 10 ^ w % 10) :: digits w (n % 10 ^ w)

@[simp] theorem length_digits (w n : Nat) : (digits w n).length = w := by
  induction w generalizing n with
  | zero => rfl
  | succ w ih => rw [digits, List.length_cons, ih]

theorem digitChar_lt_iff {m n : Nat} (hm : m < 10) (hn : n < 10) :
    Nat.digitChar m < Nat.digitChar n ↔ m < n := by
  have all : ∀ m < 10, ∀ n < 10, (Nat.digitChar m < Nat.digitChar n ↔ m < n) := by decide
  exact all m hm n hn

theorem digitChar_inj {m n : Nat} (hm : m < 10) (hn : n < 10) :
    Nat.digitChar m = Nat.digitChar n ↔ m = n := by
  have all : ∀ m < 10, ∀ n < 10, (Nat.digitChar m = Nat.digitChar n ↔ m = n) := by decide
  exact all m hm n hn

/-- The first digit of a number that fits. -/
theorem div_lt_ten {w n : Nat} (fits : n < 10 ^ (w + 1)) : n / 10 ^ w < 10 :=
  Nat.div_lt_of_lt_mul (by rwa [Nat.pow_succ] at fits)

theorem mod_lt_pow (w n : Nat) : n % 10 ^ w < 10 ^ w := Nat.mod_lt n (Nat.pow_pos (by decide))

theorem digits_inj {w m n : Nat} (hm : m < 10 ^ w) (hn : n < 10 ^ w) :
    digits w m = digits w n ↔ m = n := by
  refine ⟨fun same => ?_, fun same => same ▸ rfl⟩
  induction w generalizing m n with
  | zero => simp at hm hn; omega
  | succ w ih =>
    rw [digits, digits, List.cons.injEq, Nat.mod_eq_of_lt (div_lt_ten hm),
      Nat.mod_eq_of_lt (div_lt_ten hn), digitChar_inj (div_lt_ten hm) (div_lt_ten hn)] at same
    rw [← Nat.div_add_mod m (10 ^ w), ← Nat.div_add_mod n (10 ^ w), same.1,
      ih (mod_lt_pow w m) (mod_lt_pow w n) same.2]

theorem digits_lt_iff {w m n : Nat} (hm : m < 10 ^ w) (hn : n < 10 ^ w) :
    digits w m < digits w n ↔ m < n := by
  induction w generalizing m n with
  | zero => simp at hm hn; subst hm hn; simp [digits]
  | succ w ih =>
    rw [digits, digits, List.cons_lt_cons_iff, Nat.mod_eq_of_lt (div_lt_ten hm),
      Nat.mod_eq_of_lt (div_lt_ten hn), digitChar_lt_iff (div_lt_ten hm) (div_lt_ten hn),
      digitChar_inj (div_lt_ten hm) (div_lt_ten hn), ih (mod_lt_pow w m) (mod_lt_pow w n),
      lt_iff_div_mod (10 ^ w) m n]

/-- The number that the next `w` characters are the digits of, and what follows them. -/
def scanDigits : Nat → List Char → Option (Nat × List Char)
  | 0, cs => some (0, cs)
  | _ + 1, [] => none
  | w + 1, c :: cs =>
    if c.isDigit then
      (scanDigits w cs).map fun (n, rest) => ((c.toNat - 48) * 10 ^ w + n, rest)
    else none

theorem digitChar_spec {n : Nat} (hn : n < 10) :
    (Nat.digitChar n).isDigit = true ∧ (Nat.digitChar n).toNat - 48 = n := by
  have all : ∀ n < 10, (Nat.digitChar n).isDigit = true ∧ (Nat.digitChar n).toNat - 48 = n := by
    decide
  exact all n hn

theorem scanDigits_digits {w n : Nat} (fits : n < 10 ^ w) (rest : List Char) :
    scanDigits w (digits w n ++ rest) = some (n, rest) := by
  induction w generalizing n with
  | zero => simp at fits; subst fits; rfl
  | succ w ih =>
    obtain ⟨digit, value⟩ := digitChar_spec (div_lt_ten fits)
    rw [digits, Nat.mod_eq_of_lt (div_lt_ten fits), List.cons_append, scanDigits, if_pos digit,
      ih (mod_lt_pow w n), Option.map_some, value]
    simp only [Nat.div_add_mod']

/-! ## Fields -/

/-- A number in a text: the mark before it, and its width. -/
structure Field where
  mark : List Char
  width : Nat

/-- Each number has the width of its field. -/
def Fits (fs : List Field) (ns : List Nat) : Prop :=
  List.Forall₂ (fun f n => n < 10 ^ f.width) fs ns

/-- The numbers, each after its mark. -/
def render : List Field → List Nat → List Char
  | f :: fs, n :: ns => f.mark ++ (digits f.width n ++ render fs ns)
  | _, _ => []

theorem length_render {fs : List Field} {ms ns : List Nat} (hm : Fits fs ms) (hn : Fits fs ns) :
    (render fs ms).length = (render fs ns).length := by
  induction hm generalizing ns with
  | nil => cases hn; rfl
  | cons here _ ih =>
    cases hn with
    | cons there others => simp [render, ih others]

/-- Texts of one layout compare as their numbers do. -/
theorem render_lt_iff {fs : List Field} {ms ns : List Nat} (hm : Fits fs ms) (hn : Fits fs ns) :
    render fs ms < render fs ns ↔ ms < ns := by
  induction hm generalizing ns with
  | nil => cases hn; simp [render]
  | @cons f m fs ms here _ ih =>
    cases hn with
    | cons there others =>
      rw [render, render, append_lt_append_iff rfl, append_lt_append_iff (by simp),
        digits_lt_iff here there, digits_inj here there, ih others, List.cons_lt_cons_iff,
        or_iff_right (List.lt_irrefl f.mark), and_iff_right rfl]

/-- What follows a mark. -/
def scanMark : List Char → List Char → Option (List Char)
  | [], cs => some cs
  | _ :: _, [] => none
  | m :: ms, c :: cs => if c = m then scanMark ms cs else none

theorem scanMark_append (mark rest : List Char) : scanMark mark (mark ++ rest) = some rest := by
  induction mark with
  | nil => rfl
  | cons m ms ih => rw [List.cons_append, scanMark, if_pos rfl, ih]

/-- The numbers of the fields, and what follows them. -/
def scan : List Field → List Char → Option (List Nat × List Char)
  | [], cs => some ([], cs)
  | f :: fs, cs => do
    let cs ← scanMark f.mark cs
    let (n, cs) ← scanDigits f.width cs
    let (ns, cs) ← scan fs cs
    some (n :: ns, cs)

theorem scan_render {fs : List Field} {ns : List Nat} (fits : Fits fs ns) (rest : List Char) :
    scan fs (render fs ns ++ rest) = some (ns, rest) := by
  induction fits with
  | nil => rfl
  | cons here _ ih =>
    rw [render, scan, List.append_assoc, List.append_assoc, scanMark_append]
    simp [scanDigits_digits here, ih]

theorem render_inj {fs : List Field} {ms ns : List Nat} (hm : Fits fs ms) (hn : Fits fs ns) :
    render fs ms = render fs ns ↔ ms = ns := by
  refine ⟨fun same => ?_, fun same => same ▸ rfl⟩
  have read := scan_render hm []
  rw [same, scan_render hn] at read
  exact (congrArg Prod.fst (Option.some.inj read)).symm

/-! ## Bytes -/

/-- The bytes of a text in UTF-8. -/
def bytes (text : String) : List UInt8 := text.toUTF8.data.toList

/-- The byte of a character, in ASCII. -/
def byteOf (c : Char) : UInt8 := UInt8.ofNat c.val.toNat

def Ascii (cs : List Char) : Prop := ∀ c ∈ cs, c.val.toNat < 128

theorem toNat_byteOf {c : Char} (ascii : c.val.toNat < 128) : (byteOf c).toNat = c.val.toNat :=
  UInt8.toNat_ofNat_of_lt' (Nat.lt_trans ascii (by decide))

theorem ascii_append {cs ds : List Char} (hc : Ascii cs) (hd : Ascii ds) : Ascii (cs ++ ds) := by
  intro c mem
  rcases List.mem_append.mp mem with first | second
  · exact hc c first
  · exact hd c second

theorem ascii_digits (w n : Nat) : Ascii (digits w n) := by
  have all : ∀ n < 10, (Nat.digitChar n).val.toNat < 128 := by decide
  induction w generalizing n with
  | zero => intro c mem; cases mem
  | succ w ih =>
    intro c mem
    rcases List.mem_cons.mp mem with rfl | later
    · exact all _ (Nat.mod_lt _ (by decide))
    · exact ih _ c later

theorem ascii_render {fs : List Field} (marks : ∀ f ∈ fs, Ascii f.mark) (ns : List Nat) :
    Ascii (render fs ns) := by
  induction fs generalizing ns with
  | nil => intro c mem; cases ns <;> cases mem
  | cons f fs ih =>
    cases ns with
    | nil => intro c mem; cases mem
    | cons n ns =>
      exact ascii_append (marks f (.head _))
        (ascii_append (ascii_digits _ _) (ih (fun g hg => marks g (.tail _ hg)) ns))

theorem bytes_ofList {cs : List Char} (ascii : Ascii cs) :
    bytes (String.ofList cs) = cs.map byteOf := by
  rw [bytes, String.toUTF8_eq_toByteArray, String.toByteArray_ofList, List.utf8Encode,
    List.toList_data_toByteArray]
  induction cs with
  | nil => rfl
  | cons c cs ih =>
    have first : String.utf8EncodeChar c = [byteOf c] :=
      if_pos (Nat.le_of_lt_succ (ascii c (.head _)))
    rw [List.flatMap_cons, first, ih fun d hd => ascii d (.tail _ hd)]
    rfl

/-- Texts of ASCII characters compare by bytes as by characters. -/
theorem bytes_lt_iff {cs ds : List Char} (hc : Ascii cs) (hd : Ascii ds) :
    bytes (String.ofList cs) < bytes (String.ofList ds) ↔ cs < ds := by
  rw [bytes_ofList hc, bytes_ofList hd]
  induction cs generalizing ds with
  | nil => cases ds <;> simp
  | cons c cs ih =>
    cases ds with
    | nil => simp
    | cons d ds =>
      have hc' := toNat_byteOf (hc c (.head _))
      have hd' := toNat_byteOf (hd d (.head _))
      have less : byteOf c < byteOf d ↔ c < d := by
        rw [UInt8.lt_iff_toNat_lt, hc', hd', Char.lt_def, UInt32.lt_iff_toNat_lt]
      have same : byteOf c = byteOf d ↔ c = d := by
        rw [← UInt8.toNat_inj, hc', hd', UInt32.toNat_inj, Char.ext_iff]
      rw [List.map_cons, List.map_cons, List.cons_lt_cons_iff, List.cons_lt_cons_iff, less, same,
        ih (fun e he => hc e (.tail _ he)) fun e he => hd e (.tail _ he)]

end SupportOps.Library

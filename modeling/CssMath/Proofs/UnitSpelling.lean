import CssMath.Dimension
import Mathlib.Data.List.Forall2

/-! The spelling of units. Every text names a unit, and two texts name the same one only if they
are the same up to ASCII case, but for the two spellings of dots per pixel. So the canonical
spelling names its unit again, and a unit outside the table is not spelt like one of the table. -/
namespace CssMath

def SameLetter (c d : Char) : Prop :=
  c = d ∨ (c.isUpper ∧ d.toNat = c.toNat + 32) ∨ (d.isUpper ∧ c.toNat = d.toNat + 32)

def SameUpToCase (s t : String) : Prop := List.Forall₂ SameLetter s.toList t.toList

section Case
variable {c d : Char} {s t : String}

theorem isUpper_iff : c.isUpper ↔ 65 ≤ c.toNat ∧ c.toNat ≤ 90 := by
  calc c.isUpper = true
    _ ↔ 'A'.val ≤ c.val ∧ c.val ≤ 'Z'.val := decide_eq_true_iff
    _ ↔ 65 ≤ c.toNat ∧ c.toNat ≤ 90 := by simp [UInt32.le_iff_toNat_le]

theorem toNat_toLower (c : Char) :
    c.toLower.toNat = if 65 ≤ c.toNat ∧ c.toNat ≤ 90 then c.toNat + 32 else c.toNat := by
  split
  · rename_i h
    have hupper : 'A'.val ≤ c.val ∧ c.val ≤ 'Z'.val := of_decide_eq_true (isUpper_iff.mpr h)
    have hlower : c.toLower.val = c.val + ('a'.val - 'A'.val) := congrArg Char.val (dif_pos hupper)
    have hshift : ('a'.val - 'A'.val).toNat = 32 := rfl
    rw [← Char.toNat_val, hlower, UInt32.toNat_add, hshift, Char.toNat_val]
    omega
  · rename_i h
    have hupper : ¬('A'.val ≤ c.val ∧ c.val ≤ 'Z'.val) := fun hupper =>
      h (isUpper_iff.mp (decide_eq_true hupper))
    exact congrArg Char.toNat (dif_neg hupper)

theorem toList_toLower (s : String) : s.toLower.toList = s.toList.map Char.toLower :=
  String.toList_map

theorem sameLetter_iff : SameLetter c d ↔ c.toLower = d.toLower := by
  rw [SameLetter, isUpper_iff, isUpper_iff, ← Char.toNat_inj, ← Char.toNat_inj, toNat_toLower,
    toNat_toLower]
  split <;> split <;> omega

theorem SameLetter.eq_of_lt (h : SameLetter c d) (hc : 127 < c.toNat) : c = d := by
  rw [SameLetter, isUpper_iff, isUpper_iff] at h
  have hupper : ¬(65 ≤ c.toNat ∧ c.toNat ≤ 90) := by omega
  have hlower : ¬((65 ≤ d.toNat ∧ d.toNat ≤ 90) ∧ c.toNat = d.toNat + 32) := by omega
  exact h.resolve_right fun h => h.elim (fun h => hupper h.1) hlower

theorem sameUpToCase_iff : SameUpToCase s t ↔ s.toLower = t.toLower := by
  have hletter : SameLetter = fun c d => c.toLower = d.toLower := by
    funext c d
    exact propext sameLetter_iff
  calc SameUpToCase s t
    _ ↔ List.Forall₂ (fun c d => c.toLower = d.toLower) s.toList t.toList := by
      rw [SameUpToCase, hletter]
    _ ↔ s.toList.map Char.toLower = t.toList.map Char.toLower := by
      rw [← List.forall₂_eq_eq_eq, List.forall₂_map_left_iff, List.forall₂_map_right_iff]
    _ ↔ s.toLower = t.toLower := by
      rw [← String.toList_inj, toList_toLower, toList_toLower]

theorem toLower_toLower (s : String) : s.toLower.toLower = s.toLower := by
  have hchar : Char.toLower ∘ Char.toLower = Char.toLower := by
    funext c
    rw [Function.comp_apply, ← Char.toNat_inj]
    grind [toNat_toLower]
  rw [← String.toList_inj, toList_toLower, toList_toLower, List.map_map, hchar]

theorem not_isUpper_toLower (s : String) : ∀ c ∈ s.toLower.toList, c.isUpper = false := by
  intro c hc
  rw [toList_toLower] at hc
  obtain ⟨d, -, rfl⟩ := List.mem_map.mp hc
  rw [Bool.eq_false_iff, ne_eq, isUpper_iff, toNat_toLower]
  split <;> omega

theorem SameUpToCase.getElem?_eq {i : Nat} (h : SameUpToCase s t) (hc : s.toList[i]? = some c)
    (hlt : 127 < c.toNat) : t.toList[i]? = some c := by
  obtain ⟨hi, rfl⟩ := List.getElem?_eq_some_iff.mp hc
  have hi' : i < t.toList.length := h.length_eq ▸ hi
  have hsame : s.toList[i] = t.toList[i] := (h.get hi hi').eq_of_lt hlt
  rw [List.getElem?_eq_getElem hi', hsame]

end Case

namespace DimensionUnit

theorem named_spelling {u : DimensionUnit} (hu : ∀ name, u ≠ other name) :
    named u.spelling = u := by
  cases u with
  | other name => exact absurd rfl (hu name)
  | _ => rfl

theorem named_cases (name : String) :
    name = "x" ∧ named name = dotsPerPixel ∨ name ≠ "x" ∧ (named name).spelling = name := by
  by_cases hx : name = "x"
  · rw [hx]
    exact .inl ⟨rfl, rfl⟩
  · refine .inr ⟨hx, ?_⟩
    fun_cases named name
    -- `x` is the one name in the table that is not the spelling of its unit
    case case27 => exact absurd rfl hx
    all_goals rfl

theorem named_spelling_named (name : String) : named (named name).spelling = named name := by
  cases named_cases name with
  | inl h => rw [h.2]; rfl
  | inr h => rw [h.2]

theorem named_eq_dotsPerPixel_iff {name : String} :
    named name = dotsPerPixel ↔ name = "dppx" ∨ name = "x" := by
  constructor
  · intro h
    cases named_cases name with
    | inl hx => exact .inr hx.1
    | inr hname =>
      rw [h] at hname
      exact .inl hname.2.symm
  · intro h
    cases h with
    | inl h => rw [h]; decide
    | inr h => rw [h]; decide

theorem named_eq_iff {name name' : String} :
    named name = named name' ↔
      name = name' ∨ (name = "dppx" ∨ name = "x") ∧ (name' = "dppx" ∨ name' = "x") := by
  constructor
  · intro h
    cases named_cases name with
    | inl hx => exact .inr ⟨.inr hx.1, named_eq_dotsPerPixel_iff.mp (h.symm.trans hx.2)⟩
    | inr hname =>
      cases named_cases name' with
      | inl hx => exact .inr ⟨named_eq_dotsPerPixel_iff.mp (h.trans hx.2), .inr hx.1⟩
      | inr hname' => exact .inl (by rw [← hname.2, h, hname'.2])
  · intro h
    cases h with
    | inl h => rw [h]
    | inr h =>
      exact (named_eq_dotsPerPixel_iff.mpr h.1).trans (named_eq_dotsPerPixel_iff.mpr h.2).symm

theorem of_named_eq_other {name spelling : String} (h : named name = other spelling) :
    spelling = name ∧ name ≠ "x" ∧
      ∀ u : DimensionUnit, (∀ name, u ≠ other name) → u.spelling ≠ name := by
  cases named_cases name with
  | inl hx => cases hx.2.symm.trans h
  | inr hname =>
    obtain ⟨hx, hspelling⟩ := hname
    refine ⟨?_, hx, fun u hu hname => ?_⟩
    · rw [h] at hspelling
      exact hspelling
    · rw [← hname, named_spelling hu] at h
      exact hu spelling h

section Table
variable {u : DimensionUnit} (hu : ∀ name, u ≠ other name)
include hu

theorem toLower_spelling : u.spelling.toLower = u.spelling := by
  cases u with
  | other name => exact absurd rfl (hu name)
  | _ => decide +kernel

theorem ascii_spelling : u.spelling.toList.all fun c => c.toNat ≤ 127 := by
  cases u with
  | other name => exact absurd rfl (hu name)
  | _ => decide

theorem sameUpToCase_spelling_iff {s : String} :
    SameUpToCase s u.spelling ↔ s.toLower = u.spelling := by
  rw [sameUpToCase_iff, toLower_spelling hu]

theorem ofText_spelling : ofText u.spelling = u := by
  rw [ofText, toLower_spelling hu, named_spelling hu]

end Table

theorem sameUpToCase_x_iff {s : String} : SameUpToCase s "x" ↔ s.toLower = "x" := by
  have hx : "x".toLower = "x" := by decide +kernel
  rw [sameUpToCase_iff, hx]

theorem toLower_spelling_named {name : String} (h : name.toLower = name) :
    (named name).spelling.toLower = (named name).spelling := by
  cases named_cases name with
  | inl hx => rw [hx.2, toLower_spelling (u := dotsPerPixel) nofun]
  | inr hname => rw [hname.2, h]

theorem named_of_beyond_ascii {name : String} {c : Char} (hc : c ∈ name.toList)
    (hlt : 127 < c.toNat) : named name = other name := by
  by_cases htable : ∀ spelling, named name ≠ other spelling
  · exfalso
    cases named_cases name with
    | inl hx =>
      obtain rfl : c = 'x' := by simpa [hx.1] using hc
      exact absurd hlt (by decide)
    | inr hname =>
      have hascii := List.all_eq_true.mp (ascii_spelling htable)
      rw [hname.2] at hascii
      exact absurd (of_decide_eq_true (hascii c hc)) (by omega)
  · obtain ⟨spelling, h⟩ : ∃ spelling, named name = other spelling := by simpa using htable
    rw [h, (of_named_eq_other h).1]

/-- The canonical spelling names its unit, also where that was found by another spelling, and is in
lower case. Two texts name one unit exactly if they are the same up to ASCII case, or both spell
dots per pixel. A unit outside the table keeps its text up to ASCII case, and is not spelt like a
unit of the table; a text with a character beyond ASCII names such a unit, and the character stays
as it is. -/
theorem ofText_canonical (s : String) :
    ofText (ofText s).spelling = ofText s ∧
    (∀ u : DimensionUnit, (∀ name, u ≠ other name) → ofText u.spelling = u) ∧
    (∀ c ∈ (ofText s).spelling.toList, c.isUpper = false) ∧
    (∀ t, ofText s = ofText t ↔ SameUpToCase s t ∨
      (SameUpToCase s "dppx" ∨ SameUpToCase s "x") ∧
        (SameUpToCase t "dppx" ∨ SameUpToCase t "x")) ∧
    (∀ spelling, ofText s = other spelling → SameUpToCase s spelling ∧
      ¬SameUpToCase spelling "x" ∧
      ∀ u : DimensionUnit, (∀ name, u ≠ other name) → ¬SameUpToCase spelling u.spelling) ∧
    ∀ (i : Nat) (c : Char), s.toList[i]? = some c → 127 < c.toNat →
      ∃ spelling, ofText s = other spelling ∧ spelling.toList[i]? = some c := by
  have hlower : (ofText s).spelling.toLower = (ofText s).spelling :=
    toLower_spelling_named (toLower_toLower s)
  refine ⟨?_, fun u => ofText_spelling, ?_, ?_, ?_, ?_⟩
  · rw [ofText, hlower, ofText, named_spelling_named]
  · intro c hc
    rw [← hlower] at hc
    exact not_isUpper_toLower _ c hc
  · intro t
    have hdots (s : String) : SameUpToCase s "dppx" ↔ s.toLower = "dppx" :=
      sameUpToCase_spelling_iff (u := dotsPerPixel) nofun
    rw [ofText, ofText, named_eq_iff, sameUpToCase_iff, hdots, hdots, sameUpToCase_x_iff,
      sameUpToCase_x_iff]
  · intro spelling h
    obtain ⟨rfl, hx, htable⟩ := of_named_eq_other h
    refine ⟨sameUpToCase_iff.mpr (toLower_toLower s).symm, ?_, fun u hu => ?_⟩
    · rw [sameUpToCase_x_iff, toLower_toLower]
      exact hx
    · rw [sameUpToCase_spelling_iff hu, toLower_toLower]
      exact (htable u hu).symm
  · intro i c hc hlt
    have hkept : s.toLower.toList[i]? = some c :=
      (sameUpToCase_iff.mpr (toLower_toLower s).symm).getElem?_eq hc hlt
    exact ⟨_, named_of_beyond_ascii (List.mem_of_getElem? hkept) hlt, hkept⟩

/-- The Kelvin sign is no `K`, so what it begins is no kilohertz. -/
theorem ofText_canonical_kelvin :
    let s := "\u212aHz"
    s.toList[0]? = some '\u212a' ∧ 127 < '\u212a'.toNat ∧ ofText "KHZ" = kilohertz ∧
      ∃ spelling, ofText s = other spelling ∧ spelling.toList[0]? = some '\u212a' ∧
        SameUpToCase s spelling ∧ ¬SameUpToCase spelling kilohertz.spelling := by
  intro s
  have hc : s.toList[0]? = some '\u212a' := by decide
  have hlt : 127 < '\u212a'.toNat := by decide
  obtain ⟨-, -, -, -, hother, hbeyond⟩ := ofText_canonical s
  obtain ⟨spelling, h, hkept⟩ := hbeyond 0 '\u212a' hc hlt
  obtain ⟨hsame, -, htable⟩ := hother spelling h
  exact ⟨hc, hlt, by decide +kernel, spelling, h, hkept, hsame, htable kilohertz nofun⟩

end DimensionUnit

end CssMath

import Mathlib.Data.List.Basic
import Mathlib.Algebra.GroupWithZero.Nat

/-!
# Records in a flat list of parts

A list of records is often written as the concatenation of their parts. Where every record has the same
number of parts, the concatenation determines the parts of each.

* `eq_of_map_eq`: lists with the same images under a function that tells their elements apart.
* **`map_eq_of_flatMap_eq`**: the parts of each record from the concatenation.
* `leBytes_inj`: the eight bytes of a 64-bit word determine it.
-/

namespace Antecedent.Machine

variable {α β : Type} {f : α → List β}

theorem eq_of_map_eq {f : α → β} : ∀ {s t : List α},
    (∀ a ∈ s, ∀ b ∈ t, f a = f b → a = b) → s.map f = t.map f → s = t
  | [], [], _, _ => rfl
  | a :: s, b :: t, hinj, h => by
    obtain ⟨hab, hst⟩ := List.cons.inj h
    have htail := eq_of_map_eq (fun a ha b hb => hinj a (List.mem_cons_of_mem _ ha) b
      (List.mem_cons_of_mem _ hb)) hst
    rw [hinj a List.mem_cons_self b List.mem_cons_self hab, htail]

/-- **The parts of each record from the parts of all.** -/
theorem map_eq_of_flatMap_eq {k : Nat} (hk : 0 < k)
    (hf : ∀ a, (f a).length = k) : ∀ {s t : List α}, s.flatMap f = t.flatMap f → s.map f = t.map f
  | [], [], _ => rfl
  | [], b :: t, h => by
    have hlen := congrArg List.length h
    rw [List.flatMap_cons, List.length_append, hf] at hlen
    exact absurd hlen (by simp only [List.flatMap_nil, List.length_nil]; omega)
  | a :: s, [], h => by
    have hlen := congrArg List.length h
    rw [List.flatMap_cons, List.length_append, hf] at hlen
    exact absurd hlen (by simp only [List.flatMap_nil, List.length_nil]; omega)
  | a :: s, b :: t, h => by
    rw [List.flatMap_cons, List.flatMap_cons] at h
    obtain ⟨hab, hst⟩ := List.append_inj h ((hf a).trans (hf b).symm)
    rw [List.map_cons, List.map_cons, hab, map_eq_of_flatMap_eq hk hf hst]

theorem length_flatMap_of_length {k : Nat} (hf : ∀ a, (f a).length = k) :
    ∀ s : List α, (s.flatMap f).length = k * s.length
  | [] => rfl
  | a :: s => by
    rw [List.flatMap_cons, List.length_append, hf, length_flatMap_of_length hf s, List.length_cons,
      Nat.mul_succ, Nat.add_comm]

/-! ## Words -/

/-- `u64::to_le_bytes`. -/
def leBytes (n : Nat) : List UInt8 := (List.range 8).map fun i => UInt8.ofNat (n / 256 ^ i % 256)

theorem leBytes_inj {m n : Nat} (hm : m < 2 ^ 64) (hn : n < 2 ^ 64) (h : leBytes m = leBytes n) :
    m = n := by
  have hdigit : ∀ i < 8, m / 256 ^ i % 256 = n / 256 ^ i % 256 := fun i hi => by
    have hi' := List.map_inj_left.mp h i (List.mem_range.mpr hi)
    have hnat := congrArg UInt8.toNat hi'
    rw [UInt8.toNat_ofNat', UInt8.toNat_ofNat'] at hnat
    simpa using hnat
  have h0 := hdigit 0 (by omega)
  have h1 := hdigit 1 (by omega)
  have h2 := hdigit 2 (by omega)
  have h3 := hdigit 3 (by omega)
  have h4 := hdigit 4 (by omega)
  have h5 := hdigit 5 (by omega)
  have h6 := hdigit 6 (by omega)
  have h7 := hdigit 7 (by omega)
  omega

def textBytes (s : String) : List UInt8 := s.toUTF8.data.toList

theorem textBytes_inj {s t : String} (h : textBytes s = textBytes t) : s = t := by
  refine String.toByteArray_inj.mp (ByteArray.ext (Array.toList_inj.mp ?_))
  exact h

end Antecedent.Machine

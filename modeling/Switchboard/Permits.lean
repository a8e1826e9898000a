/-! Permits that bound how many calls go on at a time. -/
namespace Switchboard

/-- The permits that are free, and which of those taken so far, the first one first, are still out. -/
structure Permits where
  free : Nat
  out : List Bool := []
deriving DecidableEq, Repr

namespace Permits

/-- There is at least one permit. -/
def ofMax (n : Nat) : Permits := { free := max n 1 }

/-- Takes a permit, if one is free. -/
def acquire? (p : Permits) : Option Permits :=
  match p.free with
  | 0 => none
  | free + 1 => some ⟨free, p.out ++ [true]⟩

/-- Gives back the permit that was taken as number `i`, counted from zero. One that was never taken or
was given back before changes nothing. -/
def release (i : Nat) (p : Permits) : Permits :=
  match p.out[i]? with
  | some true => ⟨p.free + 1, p.out.set i false⟩
  | _ => p

/-- All permits, free or out. -/
def total (p : Permits) : Nat := p.free + p.out.count true

theorem total_ofMax (n : Nat) : (ofMax n).total = max n 1 := by simp [ofMax, total]

theorem total_acquire? {p q : Permits} (h : p.acquire? = some q) : q.total = p.total := by
  unfold acquire? at h
  split at h
  next => cases h
  next free hf =>
    cases h
    simp only [total, hf, List.count_append, List.count_singleton_self]
    omega

theorem total_release (i : Nat) (p : Permits) : (p.release i).total = p.total := by
  unfold release
  split
  next h =>
    obtain ⟨hi, he⟩ := List.getElem?_eq_some_iff.mp h
    have hpos : 0 < p.out.count true := List.count_pos_iff.mpr (he ▸ List.getElem_mem hi)
    simp only [total, List.count_set hi, he]
    simp
    omega
  next => rfl

end Permits
end Switchboard

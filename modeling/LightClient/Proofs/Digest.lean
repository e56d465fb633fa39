/-
Module: LightClient.Proofs.Digest
Purpose: A digest is known by its bytes; collisions among given byte strings, the one thing that can
  make two of them look alike.
Main exports: Digest.bytes_inj, Collision, Collision.eq_or, Collision.mono
-/
import LightClient.Digest

namespace LightClient

/-- Digests with the same bytes are the same. -/
theorem Digest.bytes_inj {d e : Digest} : d.bytes = e.bytes ↔ d = e := by
  constructor
  · intro h
    have hread := congrArg Digest.ofBytes? h
    rwa [Digest.ofBytes?_bytes, Digest.ofBytes?_bytes, Option.some.injEq] at hread
  · exact fun h => h ▸ rfl

/-- Two different byte strings among these have the same digest. -/
def Collision (strings : List Bytes) : Prop :=
  ∃ x ∈ strings, ∃ y ∈ strings, x ≠ y ∧ sha256 x = sha256 y

namespace Collision

instance (strings : List Bytes) : Decidable (Collision strings) :=
  inferInstanceAs (Decidable (∃ x ∈ strings, ∃ y ∈ strings, x ≠ y ∧ sha256 x = sha256 y))

/-- More strings collide if some of them do. -/
theorem mono {some more : List Bytes} (h : Collision some) (hsub : ∀ x ∈ some, x ∈ more) :
    Collision more := by
  obtain ⟨x, hx, y, hy, hne, heq⟩ := h
  exact ⟨x, hsub x hx, y, hsub y hy, hne, heq⟩

/-- Strings with one digest are equal, or they collide. -/
theorem eq_or {strings : List Bytes} {x y : Bytes} (hx : x ∈ strings) (hy : y ∈ strings)
    (h : sha256 x = sha256 y) : x = y ∨ Collision strings := by
  by_cases hxy : x = y
  · exact .inl hxy
  · exact .inr ⟨x, hx, y, hy, hxy, h⟩

/-- Without a collision, a digest names one string. -/
theorem eq_of_not {strings : List Bytes} (hno : ¬ Collision strings) {x y : Bytes}
    (hx : x ∈ strings) (hy : y ∈ strings) (h : sha256 x = sha256 y) : x = y :=
  (eq_or hx hy h).resolve_right hno

end Collision

end LightClient

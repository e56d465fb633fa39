/-
Module: LightClient.Proofs.Wire.Updates
Purpose: A field that a message takes up changes what the message says under the number of that
  field, and nothing else. So of several values for one field the last one counts.
Main exports: Wire.Message.part, Wire.Message.Takes, Wire.Message.part_of_decode?,
  Wire.HeaderMessage.takes, Wire.HeaderListMessage.takes, Wire.BodyMessage.takes,
  Wire.ReceiptsMessage.takes, Wire.ProofMessage.takes, Wire.CodeMessage.takes,
  Wire.NodeMessage.takes, Wire.HeaderRangeParams.takes, Wire.BlockParams.takes,
  Wire.StateParams.takes, Wire.CodeParams.takes, Wire.HelperTrieParams.takes
-/
import LightClient.Proofs.Wire.Exchanges

namespace LightClient

namespace Wire

/-! ### Fields of one number -/

/-- Either all of a group is found under a number, or nothing. -/
theorem Group.filter {number : Nat} {fs : List Field} (h : Group number fs) (n : Nat) :
    fs.filter (fun f => f.number = n) = if n = number then fs else [] := by
  split
  next heq => exact List.filter_eq_self.mpr fun f hf => by simp [(h f hf).1, heq]
  next hne => exact List.filter_eq_nil_iff.mpr fun f hf => by simp [(h f hf).1, Ne.symm hne]

@[simp] theorem filter_numberField (number n : Nat) (v : UInt64) :
    (numberField number v).filter (fun f => f.number = n) =
      if n = number then numberField number v else [] :=
  (group_numberField number v).filter n

@[simp] theorem filter_bytesField (number n : Nat) (b : Bytes) :
    (bytesField number b).filter (fun f => f.number = n) =
      if n = number then bytesField number b else [] :=
  (group_bytesField number b).filter n

@[simp] theorem filter_bytesFields (number n : Nat) (bs : List Bytes) :
    (bytesFields number bs).filter (fun f => f.number = n) =
      if n = number then bytesFields number bs else [] :=
  (group_bytesFields number bs).filter n

@[simp] theorem filter_fields {α : Type} [Message α] (number n : Nat) (ms : List α) :
    (ms.map (Message.field number)).filter (fun f => f.number = n) =
      if n = number then ms.map (Message.field number) else [] :=
  (group_fields number ms).filter n

namespace Message

variable {α : Type} [Message α] {gathered : List Nat}

/-- What a message says under one number. -/
def part (n : Nat) (m : α) : List Field :=
  (fields m).filter fun f => f.number = n

theorem part_eq_nil {m : α} {last n : Nat} (h : Laid last (fields m)) (hn : n = 0 ∨ last < n) :
    part n m = [] := by
  refine List.filter_eq_nil_iff.mpr fun f hf => ?_
  have hbounds := h.numbers f hf
  simp only [decide_eq_true_eq]
  omega

/-- How a message takes up a field. What it says under other numbers stays, and under the number of
the field it says then what the field says on its own, unless such fields are gathered. -/
structure Takes (gathered : List Nat) (m : α) (f : Field) (m' : α) : Prop where
  keeps (n : Nat) : n ≠ f.number → part n m' = part n m
  sets : f.number ∉ gathered →
    ∃ alone : α, absorb 100 blank f = some alone ∧ part f.number m' = part f.number alone

/-- A field of an unknown number is passed over. -/
theorem Takes.pass {m : α} {f : Field} {last : Nat} (hm : Laid last (fields m))
    (hblank : Laid last (fields (blank : α))) (hf : f.number = 0 ∨ last < f.number)
    (hpass : absorb 100 (blank : α) f = some blank) : Takes gathered m f m where
  keeps _ _ := rfl
  sets _ := ⟨blank, hpass, by rw [part_eq_nil hm hf, part_eq_nil hblank hf]⟩

section

variable (htakes : ∀ {m m' : α} {f : Field}, absorb 100 m f = some m' → Takes gathered m f m')

include htakes

theorem part_foldlM {fs : List Field} {m m' : α} {n : Nat}
    (hfold : fs.foldlM (absorb 100) m = some m') (hother : ∀ f ∈ fs, f.number ≠ n) :
    part n m' = part n m := by
  induction fs generalizing m with
  | nil =>
    cases hfold
    rfl
  | cons f fs ih =>
    rw [List.foldlM_cons] at hfold
    obtain ⟨u, hu, hrest⟩ := Option.bind_eq_some_iff.mp hfold
    rw [ih hrest fun g hg => hother g (List.mem_cons_of_mem _ hg)]
    exact (htakes hu).keeps n (hother f List.mem_cons_self).symm

/-- Of several values for one field the last one counts, whatever stands between them. -/
theorem part_of_decode? {bs : Bytes} {before behind : List Field} {f : Field} {m : α}
    (hread : Wire.decode? 100 bs = some (before ++ f :: behind))
    (hlast : ∀ g ∈ behind, g.number ≠ f.number) (hf : f.number ∉ gathered)
    (hm : decode? bs = some m) :
    ∃ alone : α, absorb 100 blank f = some alone ∧ part f.number m = part f.number alone := by
  rw [decode?, merge?, hread, Option.bind_some, List.foldlM_append] at hm
  obtain ⟨s, _, hrest⟩ := Option.bind_eq_some_iff.mp hm
  rw [List.foldlM_cons] at hrest
  obtain ⟨t, ht, hend⟩ := Option.bind_eq_some_iff.mp hrest
  rw [part_foldlM htakes hend hlast]
  exact (htakes ht).sets hf

end

end Message

/-! ### Replies -/

theorem HeaderMessage.takes {m m' : HeaderMessage} {f : Field}
    (h : Message.absorb 100 m f = some m') : Message.Takes [] m f m' := by
  obtain ⟨k, p⟩ := f
  simp only [Message.absorb] at h
  split at h
  case h_8 =>
    cases h
    exact .pass m.laid (laid _) (by grind) (by simp [Message.absorb])
  all_goals
    obtain ⟨b, hb, rfl⟩ := Option.map_eq_some_iff.mp h
    constructor <;> simp +contextual [hb, Message.absorb, Message.part, Message.fields]

theorem HeaderListMessage.takes {m m' : HeaderListMessage} {f : Field}
    (h : Message.absorb 100 m f = some m') : Message.Takes [1] m f m' := by
  obtain ⟨k, p⟩ := f
  simp only [Message.absorb] at h
  split at h
  case h_2 =>
    cases h
    exact .pass m.laid (laid _) (by grind) (by simp [Message.absorb])
  · obtain ⟨b, hb, rfl⟩ := Option.map_eq_some_iff.mp h
    -- The list stays whole, so that it is found as one group.
    constructor <;>
    simp +contextual [hb, Message.absorb, Message.part, Message.fields, -List.map_append]

theorem BodyMessage.takes {m m' : BodyMessage} {f : Field}
    (h : Message.absorb 100 m f = some m') : Message.Takes [1, 2] m f m' := by
  obtain ⟨k, p⟩ := f
  simp only [Message.absorb] at h
  split at h
  case h_3 =>
    cases h
    exact .pass m.laid (laid _) (by grind) (by simp [Message.absorb])
  all_goals
    obtain ⟨b, hb, rfl⟩ := Option.map_eq_some_iff.mp h
    constructor <;> simp +contextual [hb, Message.absorb, Message.part, Message.fields]

theorem ReceiptsMessage.takes {m m' : ReceiptsMessage} {f : Field}
    (h : Message.absorb 100 m f = some m') : Message.Takes [1] m f m' := by
  obtain ⟨k, p⟩ := f
  simp only [Message.absorb] at h
  split at h
  case h_2 =>
    cases h
    exact .pass m.laid (laid _) (by grind) (by simp [Message.absorb])
  · obtain ⟨b, hb, rfl⟩ := Option.map_eq_some_iff.mp h
    constructor <;> simp +contextual [hb, Message.absorb, Message.part, Message.fields]

theorem ProofMessage.takes {m m' : ProofMessage} {f : Field}
    (h : Message.absorb 100 m f = some m') : Message.Takes [1, 2] m f m' := by
  obtain ⟨k, p⟩ := f
  simp only [Message.absorb] at h
  split at h
  case h_3 =>
    cases h
    exact .pass m.laid (laid _) (by grind) (by simp [Message.absorb])
  all_goals
    obtain ⟨b, hb, rfl⟩ := Option.map_eq_some_iff.mp h
    constructor <;>
    simp +contextual [hb, Message.absorb, Message.part, Message.fields, -Option.toList_some]

theorem CodeMessage.takes {m m' : CodeMessage} {f : Field}
    (h : Message.absorb 100 m f = some m') : Message.Takes [] m f m' := by
  obtain ⟨k, p⟩ := f
  simp only [Message.absorb] at h
  split at h
  case h_2 =>
    cases h
    exact .pass m.laid (laid _) (by grind) (by simp [Message.absorb])
  · obtain ⟨b, hb, rfl⟩ := Option.map_eq_some_iff.mp h
    constructor <;> simp +contextual [hb, Message.absorb, Message.part, Message.fields]

/-! ### Nodes -/

theorem NodeMessage.takes {m m' : NodeMessage} {f : Field}
    (h : Message.absorb 100 m f = some m') : Message.Takes [3] m f m' := by
  obtain ⟨k, p⟩ := f
  simp only [Message.absorb] at h
  split at h
  case h_5 =>
    cases h
    exact .pass m.laid (laid _) (by grind) (by simp [Message.absorb])
  all_goals
    obtain ⟨b, hb, rfl⟩ := Option.map_eq_some_iff.mp h
    constructor <;> simp +contextual [hb, Message.absorb, Message.part, Message.fields]

/-! ### Parameters of requests -/

theorem HeaderRangeParams.takes {m m' : HeaderRangeParams} {f : Field}
    (h : Message.absorb 100 m f = some m') : Message.Takes [] m f m' := by
  obtain ⟨k, p⟩ := f
  simp only [Message.absorb] at h
  split at h
  case h_4 =>
    cases h
    exact .pass m.laid (laid _) (by grind) (by simp [Message.absorb])
  all_goals
    obtain ⟨b, hb, rfl⟩ := Option.map_eq_some_iff.mp h
    constructor <;> simp +contextual [hb, Message.absorb, Message.part, Message.fields]

theorem BlockParams.takes {m m' : BlockParams} {f : Field}
    (h : Message.absorb 100 m f = some m') : Message.Takes [] m f m' := by
  obtain ⟨k, p⟩ := f
  simp only [Message.absorb] at h
  split at h
  case h_3 =>
    cases h
    exact .pass m.laid (laid _) (by grind) (by simp [Message.absorb])
  all_goals
    obtain ⟨b, hb, rfl⟩ := Option.map_eq_some_iff.mp h
    constructor <;> simp +contextual [hb, Message.absorb, Message.part, Message.fields]

theorem StateParams.takes {m m' : StateParams} {f : Field}
    (h : Message.absorb 100 m f = some m') : Message.Takes [1] m f m' := by
  obtain ⟨k, p⟩ := f
  simp only [Message.absorb] at h
  split at h
  case h_4 =>
    cases h
    exact .pass m.laid (laid _) (by grind) (by simp [Message.absorb])
  all_goals
    obtain ⟨b, hb, rfl⟩ := Option.map_eq_some_iff.mp h
    constructor <;>
    simp +contextual [hb, Message.absorb, Message.part, Message.fields, -Option.toList_some]

theorem CodeParams.takes {m m' : CodeParams} {f : Field}
    (h : Message.absorb 100 m f = some m') : Message.Takes [1] m f m' := by
  obtain ⟨k, p⟩ := f
  simp only [Message.absorb] at h
  split at h
  case h_3 =>
    cases h
    exact .pass m.laid (laid _) (by grind) (by simp [Message.absorb])
  all_goals
    obtain ⟨b, hb, rfl⟩ := Option.map_eq_some_iff.mp h
    constructor <;>
    simp +contextual [hb, Message.absorb, Message.part, Message.fields, -Option.toList_some]

theorem HelperTrieParams.takes {m m' : HelperTrieParams} {f : Field}
    (h : Message.absorb 100 m f = some m') : Message.Takes [] m f m' := by
  obtain ⟨k, p⟩ := f
  simp only [Message.absorb] at h
  split at h
  case h_4 =>
    cases h
    exact .pass m.laid (laid _) (by grind) (by simp [Message.absorb])
  all_goals
    obtain ⟨b, hb, rfl⟩ := Option.map_eq_some_iff.mp h
    constructor <;> simp +contextual [hb, Message.absorb, Message.part, Message.fields]

end Wire

end LightClient

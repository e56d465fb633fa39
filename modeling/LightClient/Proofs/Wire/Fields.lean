/-
Module: LightClient.Proofs.Wire.Fields
Purpose: Fields are read back from their bytes, whatever follows them, and what is read is no longer
  than the bytes.
Main exports: Wire.Field.Writable, Wire.Field.Writable.encode_append_inj, Wire.decode?_encode,
  Wire.decode?_bounds
-/
import LightClient.Proofs.Wire.Varint
import LightClient.Wire.Field

namespace LightClient

namespace Wire

/-- A field that a message can be written with: its number fits a tag, and the length of its
content fits a word. -/
def Field.Writable (f : Field) : Prop :=
  1 ≤ f.number ∧ f.number < 2 ^ 29 ∧
    match f.payload with
    | .number _ => True
    | .bytes b => b.length < 2 ^ 64
    | .foreign => False

theorem encode_nil : encode [] = [] := rfl

theorem encode_cons (f : Field) (fs : List Field) : encode (f :: fs) = f.encode ++ encode fs :=
  List.flatMap_cons

theorem encode_append (fs gs : List Field) : encode (fs ++ gs) = encode fs ++ encode gs :=
  List.flatMap_append

/-- A field is announced by its number and layout. -/
theorem readKey_key {number layout : Nat} (rest : Bytes) (hpos : 1 ≤ number)
    (hnumber : number < 2 ^ 29) (hlayout : layout < 8) :
    readKey (key number layout ++ rest) = some (number, layout, rest) := by
  have hword : (UInt64.ofNat (8 * number + layout)).toNat = 8 * number + layout :=
    UInt64.toNat_ofNat_of_lt' (show _ < 2 ^ 64 by omega)
  have hrange : 8 * number + layout < UInt32.size ∧ 8 ≤ 8 * number + layout :=
    ⟨show _ < 2 ^ 32 by omega, by omega⟩
  have hdiv : (8 * number + layout) / 8 = number := by omega
  have hmod : (8 * number + layout) % 8 = layout := by omega
  simp only [readKey, key, Varint.decode?_encode, Option.bind_eq_bind, Option.bind_some, hword,
    hrange, and_self, if_true, hdiv, hmod]

theorem readPayload_bytes {b : Bytes} (rest : Bytes) (hb : b.length < 2 ^ 64) :
    readPayload 2 (Varint.encode (UInt64.ofNat b.length) ++ (b ++ rest)) =
      some (.bytes b, rest) := by
  have hlength : (UInt64.ofNat b.length).toNat = b.length := UInt64.toNat_ofNat_of_lt' hb
  simp [readPayload, Varint.decode?_encode, split, hlength]

/-- One round of reading, where there is something to read. -/
theorem readFields_succ {depth steps : Nat} {opened : List Nat} {bs : Bytes} (hbs : bs ≠ []) :
    readFields depth (steps + 1) opened bs = (do
      let (number, layout, rest) ← readKey bs
      if layout = 4 then
        match opened with
        | [] => none
        | [outer] =>
          if number = outer then
            (readFields depth steps [] rest).map (Field.mk number .foreign :: ·)
          else none
        | inner :: outer => if number = inner then readFields depth steps outer rest else none
      else if opened.length < depth then
        if layout = 3 then
          readFields depth steps (number :: opened) rest
        else do
          let (payload, rest) ← readPayload layout rest
          match opened with
          | [] => (readFields depth steps [] rest).map (Field.mk number payload :: ·)
          | _ :: _ => readFields depth steps opened rest
      else none) := by
  cases bs with
  | nil => exact absurd rfl hbs
  | cons b bs => cases opened <;> rfl

theorem key_ne_nil (number layout : Nat) : key number layout ≠ [] :=
  Varint.encode_ne_nil _

/-- A field takes at least one byte. -/
theorem Field.Writable.encode_ne_nil {f : Field} (hf : f.Writable) : f.encode ≠ [] := by
  obtain ⟨number, payload⟩ := f
  cases payload with
  | number v => simp [Field.encode, key_ne_nil]
  | bytes b => simp [Field.encode, key_ne_nil]
  | foreign => exact absurd hf.2.2 id

theorem Field.Writable.readKey_encode {f : Field} (hf : f.Writable) (rest : Bytes) :
    ∃ layout behind, readKey (f.encode ++ rest) = some (f.number, layout, behind) := by
  obtain ⟨number, payload⟩ := f
  obtain ⟨hpos, hnumber, hpayload⟩ := hf
  cases payload with
  | number v =>
    refine ⟨0, Varint.encode v ++ rest, ?_⟩
    rw [Field.encode, List.append_assoc, readKey_key _ hpos hnumber (by omega)]
  | bytes b =>
    refine ⟨2, Varint.encode (UInt64.ofNat b.length) ++ b ++ rest, ?_⟩
    rw [Field.encode, List.append_assoc, List.append_assoc, readKey_key _ hpos hnumber (by omega),
      List.append_assoc]
  | foreign => exact absurd hpayload id

/-- A field that is announced alike is the same field, and so is what follows it. -/
theorem Field.Writable.encode_append_inj {f g : Field} (hf : f.Writable) (hg : g.Writable)
    {r s : Bytes} (h : f.encode ++ r = g.encode ++ s) : f = g ∧ r = s := by
  obtain ⟨n, p⟩ := f
  obtain ⟨m, q⟩ := g
  obtain ⟨hpos, hnumber, hp⟩ := hf
  obtain ⟨hpos', hnumber', hq⟩ := hg
  have hread := congrArg readKey h
  cases p with
  | foreign => exact absurd hp id
  | number v =>
    cases q with
    | foreign => exact absurd hq id
    | number w =>
      simp only [Field.encode, List.append_assoc, readKey_key _ hpos hnumber (show 0 < 8 by omega),
        readKey_key _ hpos' hnumber' (show 0 < 8 by omega), Option.some.injEq,
        Prod.mk.injEq, true_and] at hread
      obtain ⟨rfl, hrest⟩ := Varint.encode_append_inj hread.2
      rw [hread.1]
      exact ⟨rfl, hrest⟩
    | bytes c =>
      simp [Field.encode, readKey_key _ hpos hnumber (show 0 < 8 by omega),
        readKey_key _ hpos' hnumber' (show 2 < 8 by omega)] at hread
  | bytes b =>
    cases q with
    | foreign => exact absurd hq id
    | number w =>
      simp [Field.encode, readKey_key _ hpos hnumber (show 2 < 8 by omega),
        readKey_key _ hpos' hnumber' (show 0 < 8 by omega)] at hread
    | bytes c =>
      simp only [Field.encode, List.append_assoc, readKey_key _ hpos hnumber (show 2 < 8 by omega),
        readKey_key _ hpos' hnumber' (show 2 < 8 by omega), Option.some.injEq,
        Prod.mk.injEq, true_and] at hread
      obtain ⟨hwords, hrest⟩ := Varint.encode_append_inj hread.2
      have hlength := congrArg UInt64.toNat hwords
      rw [UInt64.toNat_ofNat_of_lt' hp, UInt64.toNat_ofNat_of_lt' hq] at hlength
      obtain ⟨rfl, hend⟩ := List.append_inj hrest hlength
      rw [hread.1]
      exact ⟨rfl, hend⟩

/-- Outside of groups, a written field is the next field read. -/
theorem readFields_field {depth : Nat} (steps : Nat) {f : Field} (rest : Bytes)
    (hdepth : 0 < depth) (hf : f.Writable) :
    readFields depth (steps + 1) [] (f.encode ++ rest) =
      (readFields depth steps [] rest).map (f :: ·) := by
  rw [readFields_succ (by simp [hf.encode_ne_nil])]
  obtain ⟨number, payload⟩ := f
  obtain ⟨hpos, hnumber, hpayload⟩ := hf
  cases payload with
  | number v =>
    simp [Field.encode, readKey_key _ hpos hnumber (show 0 < 8 by omega), hdepth, readPayload,
      Varint.decode?_encode]
  | bytes b =>
    simp [Field.encode, readKey_key _ hpos hnumber (show 2 < 8 by omega), hdepth,
      readPayload_bytes _ hpayload]
  | foreign => exact absurd hpayload id

/-- Writable fields are read back in the order in which they were written. -/
theorem readFields_encode {depth : Nat} (hdepth : 0 < depth) {fs : List Field}
    (hfs : ∀ f ∈ fs, f.Writable) {steps : Nat} (hsteps : (encode fs).length ≤ steps) :
    readFields depth steps [] (encode fs) = some fs := by
  induction fs generalizing steps with
  | nil => cases steps <;> rfl
  | cons f fs ih =>
    have hf : f.Writable := hfs f List.mem_cons_self
    have hpos : 0 < f.encode.length := List.length_pos_iff.mpr hf.encode_ne_nil
    rw [encode_cons, List.length_append] at hsteps
    obtain ⟨steps, rfl⟩ : ∃ k, steps = k + 1 := ⟨steps - 1, by omega⟩
    rw [encode_cons, readFields_field steps _ hdepth hf,
      ih (fun g hg => hfs g (List.mem_cons_of_mem _ hg)) (by omega)]
    rfl

/-- Written fields are read back, whatever depth is left for groups. -/
theorem decode?_encode {depth : Nat} (hdepth : 0 < depth) {fs : List Field}
    (hfs : ∀ f ∈ fs, f.Writable) : decode? depth (encode fs) = some fs :=
  readFields_encode hdepth hfs (Nat.le_refl _)

/-! ### What is read is no longer than the bytes -/

/-- The number of fields, and the length of each, are bounded. -/
def Bounded (limit : Nat) (fs : List Field) : Prop :=
  fs.length ≤ limit ∧ ∀ f ∈ fs, ∀ b, f.payload = .bytes b → b.length ≤ limit

theorem Bounded.nil (limit : Nat) : Bounded limit [] :=
  ⟨Nat.zero_le _, fun _ hf => nomatch hf⟩

theorem Bounded.mono {small large : Nat} {fs : List Field} (h : Bounded small fs)
    (hle : small ≤ large) : Bounded large fs :=
  ⟨h.1.trans hle, fun f hf b hb => (h.2 f hf b hb).trans hle⟩

/-- A field more takes at least one byte more. -/
theorem Bounded.cons {small large : Nat} {f : Field} {fs : List Field} (h : Bounded small fs)
    (hlt : small < large) (hf : ∀ b, f.payload = .bytes b → b.length ≤ large) :
    Bounded large (f :: fs) := by
  constructor
  · exact Nat.lt_of_le_of_lt h.1 hlt
  · intro g hg b hb
    cases hg with
    | head => exact hf b hb
    | tail _ hg => exact (h.2 g hg b hb).trans hlt.le

theorem readKey_length {bs rest : Bytes} {number layout : Nat}
    (h : readKey bs = some (number, layout, rest)) : rest.length < bs.length := by
  unfold readKey at h
  obtain ⟨⟨k, rest'⟩, hk, h⟩ := Option.bind_eq_some_iff.mp h
  simp only at h
  split at h
  · cases h
    exact Varint.decode?_length hk
  · cases h

theorem split_length {n : Nat} {bs data rest : Bytes} (h : split n bs = some (data, rest)) :
    data.length + rest.length = bs.length := by
  unfold split at h
  split at h
  · cases h
    simp only [List.length_take, List.length_drop]
    omega
  · cases h

theorem readPayload_length {layout : Nat} {bs rest : Bytes} {payload : Payload}
    (h : readPayload layout bs = some (payload, rest)) :
    rest.length ≤ bs.length ∧ ∀ b, payload = .bytes b → b.length ≤ bs.length := by
  unfold readPayload at h
  split at h
  · obtain ⟨⟨v, rest'⟩, hv, h⟩ := Option.map_eq_some_iff.mp h
    cases h
    exact ⟨(Varint.decode?_length hv).le, fun b hb => nomatch hb⟩
  · obtain ⟨⟨data, rest'⟩, hs, h⟩ := Option.map_eq_some_iff.mp h
    cases h
    have hlength := split_length hs
    exact ⟨by simp only; omega, fun b hb => nomatch hb⟩
  · obtain ⟨⟨n, rest'⟩, hn, h⟩ := Option.bind_eq_some_iff.mp h
    obtain ⟨⟨data, rest''⟩, hs, h⟩ := Option.bind_eq_some_iff.mp h
    cases h
    have hlength := split_length hs
    have hvarint := Varint.decode?_length hn
    constructor
    · omega
    · intro b hb
      cases hb
      omega
  · obtain ⟨⟨data, rest'⟩, hs, h⟩ := Option.map_eq_some_iff.mp h
    cases h
    have hlength := split_length hs
    exact ⟨by simp only; omega, fun b hb => nomatch hb⟩
  · cases h

/-- No field that is read is longer than the bytes it was read from. -/
theorem readFields_bounds {depth steps : Nat} {opened : List Nat} {bs : Bytes} {fs : List Field}
    (h : readFields depth steps opened bs = some fs) : Bounded bs.length fs := by
  -- on the steps: each one takes a key off the bytes, and what is left is shorter
  induction steps generalizing opened bs fs with
  | zero =>
    cases bs with
    | nil =>
      cases opened with
      | nil =>
        cases h
        exact Bounded.nil _
      | cons => cases h
    | cons => cases opened <;> cases h
  | succ steps ih =>
    by_cases hbs : bs = []
    · subst hbs
      cases opened with
      | nil =>
        cases h
        exact Bounded.nil _
      | cons => cases h
    · rw [readFields_succ hbs] at h
      obtain ⟨⟨number, layout, rest⟩, hkey, h⟩ := Option.bind_eq_some_iff.mp h
      have hrest := readKey_length hkey
      simp only at h
      split at h
      · split at h
        · cases h
        · split at h
          · obtain ⟨fs', hfs, rfl⟩ := Option.map_eq_some_iff.mp h
            exact (ih hfs).cons hrest fun b hb => nomatch hb
          · cases h
        · split at h
          · exact (ih h).mono hrest.le
          · cases h
      · split at h
        · split at h
          · exact (ih h).mono hrest.le
          · obtain ⟨⟨payload, rest'⟩, hp, h⟩ := Option.bind_eq_some_iff.mp h
            have hpayload := readPayload_length hp
            simp only at h
            split at h
            · obtain ⟨fs', hfs, rfl⟩ := Option.map_eq_some_iff.mp h
              exact (ih hfs).cons (hpayload.1.trans_lt hrest) fun b hb =>
                (hpayload.2 b hb).trans hrest.le
            · exact (ih h).mono (hpayload.1.trans hrest.le)
        · cases h

/-- Bytes hold no more fields than they are long, and no field longer than they are. -/
theorem decode?_bounds {depth : Nat} {bs : Bytes} {fs : List Field}
    (h : decode? depth bs = some fs) : Bounded bs.length fs :=
  readFields_bounds h

end Wire

end LightClient

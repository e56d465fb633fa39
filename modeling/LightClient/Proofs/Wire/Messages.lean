/-
Module: LightClient.Proofs.Wire.Messages
Purpose: The fields of a message are laid out in groups, in the order of their numbers; byte strings
  and groups of fields are told apart by what is written for them. Header and node messages are read
  back from their bytes, and a message that is read holds no more, and nothing longer, than its
  bytes.
Main exports: Wire.Group, Wire.Laid, Wire.Measured, Wire.Laid.writable, Wire.encode_bytesField_inj,
  Wire.encode_append_bytesField_inj, Wire.encode_bytesFields_append_inj,
  Wire.Message.decode?_encode, Wire.HeaderMessage.foldlM_fields, Wire.NodeMessage.decode?_encode,
  Wire.Message.exists_of_merge?, Wire.Within
-/
import LightClient.Proofs.Wire.Fields
import LightClient.Wire.Payloads

namespace LightClient

namespace Wire

@[simp] theorem Payload.bytes?_eq_some_iff {p : Payload} {b : Bytes} :
    p.bytes? = some b ↔ p = .bytes b := by
  cases p <;> simp [Payload.bytes?]

/-! ### Fields that are written -/

theorem mem_numberField {number : Nat} {v : UInt64} {f : Field} :
    f ∈ numberField number v ↔ v ≠ 0 ∧ f = ⟨number, .number v⟩ := by
  unfold numberField
  split <;> simp_all

theorem mem_bytesField {number : Nat} {b : Bytes} {f : Field} :
    f ∈ bytesField number b ↔ b ≠ [] ∧ f = ⟨number, .bytes b⟩ := by
  unfold bytesField
  split <;> simp_all

/-- Fields of one number, of layouts that can be written. -/
def Group (number : Nat) (fs : List Field) : Prop :=
  ∀ f ∈ fs, f.number = number ∧ f.payload ≠ .foreign

theorem group_numberField (number : Nat) (v : UInt64) : Group number (numberField number v) := by
  intro f hf
  obtain ⟨_, rfl⟩ := mem_numberField.mp hf
  exact ⟨rfl, nofun⟩

theorem group_bytesField (number : Nat) (b : Bytes) : Group number (bytesField number b) := by
  intro f hf
  obtain ⟨_, rfl⟩ := mem_bytesField.mp hf
  exact ⟨rfl, nofun⟩

theorem group_bytesFields (number : Nat) (bs : List Bytes) :
    Group number (bytesFields number bs) := by
  intro f hf
  obtain ⟨b, _, rfl⟩ := List.mem_map.mp hf
  exact ⟨rfl, nofun⟩

theorem group_fields {α : Type} [Message α] (number : Nat) (ms : List α) :
    Group number (ms.map (Message.field number)) := by
  intro f hf
  obtain ⟨m, _, rfl⟩ := List.mem_map.mp hf
  exact ⟨rfl, nofun⟩

/-- Fields in the order of their numbers, the last of which is given, and of layouts that can be
written. -/
structure Laid (last : Nat) (fs : List Field) : Prop where
  ordered : fs.Pairwise fun f g => f.number ≤ g.number
  numbers : ∀ f ∈ fs, 1 ≤ f.number ∧ f.number ≤ last
  native : ∀ f ∈ fs, f.payload ≠ .foreign

theorem Group.laid {number : Nat} {fs : List Field} (h : Group number fs) (hpos : 1 ≤ number) :
    Laid number fs where
  ordered := List.pairwise_of_forall_mem_list fun f hf g hg => by rw [(h f hf).1, (h g hg).1]
  numbers f hf := by
    rw [(h f hf).1]
    exact ⟨hpos, Nat.le_refl _⟩
  native f hf := (h f hf).2

/-- A group of a larger number comes behind. -/
theorem Laid.append {last number : Nat} {fs gs : List Field} (h : Laid last fs)
    (hgroup : Group number gs) (hlt : last < number) : Laid number (fs ++ gs) where
  ordered := by
    refine List.pairwise_append.mpr ⟨h.ordered, (hgroup.laid (by omega)).ordered, ?_⟩
    intro f hf g hg
    have hlast := (h.numbers f hf).2
    rw [(hgroup g hg).1]
    omega
  numbers f hf := by
    rcases List.mem_append.mp hf with hf | hf
    · have hbounds := h.numbers f hf
      omega
    · rw [(hgroup f hf).1]
      omega
  native f hf := by
    rcases List.mem_append.mp hf with hf | hf
    · exact h.native f hf
    · exact (hgroup f hf).2

/-- The byte strings in the fields have lengths that fit a word. -/
def Measured (fs : List Field) : Prop :=
  ∀ f ∈ fs, ∀ b, f.payload = .bytes b → b.length < 2 ^ 64

theorem Laid.writable {last : Nat} {fs : List Field} (h : Laid last fs) (hlast : last < 2 ^ 29)
    (hmeasured : Measured fs) : ∀ f ∈ fs, f.Writable := by
  intro f hf
  obtain ⟨hpos, hle⟩ := h.numbers f hf
  refine ⟨hpos, by omega, ?_⟩
  cases hpayload : f.payload with
  | number => trivial
  | bytes b => exact hmeasured f hf b hpayload
  | foreign => exact h.native f hf hpayload

@[simp] theorem measured_append {fs gs : List Field} :
    Measured (fs ++ gs) ↔ Measured fs ∧ Measured gs := by
  simp [Measured, or_imp, forall_and]

@[simp] theorem measured_numberField (number : Nat) (v : UInt64) :
    Measured (numberField number v) := by
  intro f hf b hb
  obtain ⟨_, rfl⟩ := mem_numberField.mp hf
  cases hb

@[simp] theorem measured_bytesField {number : Nat} {b : Bytes} :
    Measured (bytesField number b) ↔ b.length < 2 ^ 64 := by
  by_cases hb : b = []
  · simp [Measured, bytesField, hb]
  · simp [Measured, bytesField, hb]

@[simp] theorem measured_bytesFields {number : Nat} {bs : List Bytes} :
    Measured (bytesFields number bs) ↔ ∀ b ∈ bs, b.length < 2 ^ 64 := by
  simp [Measured, bytesFields]

@[simp] theorem measured_fields {α : Type} [Message α] {number : Nat} {ms : List α} :
    Measured (ms.map (Message.field number)) ↔ ∀ m ∈ ms, (Message.encode m).length < 2 ^ 64 := by
  simp [Measured, Message.field]

/-- A message that is there is measured as a field. -/
theorem measured_some {α : Type} [Message α] {number : Nat} {m : α}
    (h : (Message.encode m).length < 2 ^ 64) :
    Measured ((some m).toList.map (Message.field number)) := by
  apply measured_fields.mpr
  intro x hx
  rwa [List.mem_singleton.mp hx]

/-! ### Fields that are told apart -/

theorem encode_bytesField_nil (number : Nat) : encode (bytesField number []) = [] := rfl

theorem encode_bytesField_of_ne {number : Nat} {b : Bytes} (h : b ≠ []) :
    encode (bytesField number b) =
      key number 2 ++ (Varint.encode (UInt64.ofNat b.length) ++ b) := by
  simp [bytesField, h, encode, Field.encode]

theorem encode_bytesFields_cons (number : Nat) (b : Bytes) (bs : List Bytes) :
    encode (bytesFields number (b :: bs)) =
      key number 2 ++ (Varint.encode (UInt64.ofNat b.length) ++
        (b ++ encode (bytesFields number bs))) := by
  simp [bytesFields, encode, Field.encode]

/-- Different byte strings are written differently. This holds whatever their lengths are: where
two lengths are written alike, what follows them differs. -/
theorem encode_bytesField_inj {number : Nat} {b c : Bytes}
    (h : encode (bytesField number b) = encode (bytesField number c)) : b = c := by
  by_cases hb : b = []
  · by_cases hc : c = []
    · rw [hb, hc]
    · rw [hb, encode_bytesField_nil, encode_bytesField_of_ne hc] at h
      simp [key_ne_nil] at h
  · by_cases hc : c = []
    · rw [hc, encode_bytesField_nil, encode_bytesField_of_ne hb] at h
      simp [key_ne_nil] at h
    · rw [encode_bytesField_of_ne hb, encode_bytesField_of_ne hc, List.append_cancel_left_eq] at h
      exact (Varint.encode_append_inj h).2

/-- What is written for a byte string does not start like a field of a smaller number. -/
theorem encode_bytesField_ne {f : Field} {number : Nat} (hf : f.Writable) (hlt : f.number < number)
    (hnumber : number < 2 ^ 29) (b rest : Bytes) :
    encode (bytesField number b) ≠ f.encode ++ rest := by
  intro h
  by_cases hb : b = []
  · rw [hb, encode_bytesField_nil] at h
    exact hf.encode_ne_nil (List.append_eq_nil_iff.mp h.symm).1
  · obtain ⟨layout, behind, hread⟩ := hf.readKey_encode rest
    rw [← h, encode_bytesField_of_ne hb, readKey_key _ (by omega) hnumber (by omega)] at hread
    simp only [Option.some.injEq, Prod.mk.injEq] at hread
    omega

/-- Fields are told apart by what is written for them and for a byte string behind them, and so are
the byte strings. Only what is in front has to have lengths that fit a word. -/
theorem encode_append_bytesField_inj {fs gs : List Field} {last number : Nat} {b c : Bytes}
    (hfs : Laid last fs) (hgs : Laid last gs) (hlast : last < number) (hnumber : number < 2 ^ 29)
    (hmfs : Measured fs) (hmgs : Measured gs)
    (h : encode fs ++ encode (bytesField number b) = encode gs ++ encode (bytesField number c)) :
    fs = gs ∧ b = c := by
  have hwritable : ∀ f ∈ fs, f.Writable ∧ f.number < number := fun f hf =>
    ⟨hfs.writable (by omega) hmfs f hf, (hfs.numbers f hf).2.trans_lt hlast⟩
  have hwritable' : ∀ g ∈ gs, g.Writable ∧ g.number < number := fun g hg =>
    ⟨hgs.writable (by omega) hmgs g hg, (hgs.numbers g hg).2.trans_lt hlast⟩
  clear hfs hgs hmfs hmgs
  induction fs generalizing gs with
  | nil =>
    cases gs with
    | nil => exact ⟨rfl, encode_bytesField_inj h⟩
    | cons g gs =>
      obtain ⟨hg, hlt⟩ := hwritable' g List.mem_cons_self
      rw [encode_nil, List.nil_append, encode_cons, List.append_assoc] at h
      exact absurd h (encode_bytesField_ne hg hlt hnumber b _)
  | cons f fs ih =>
    obtain ⟨hf, hlt⟩ := hwritable f List.mem_cons_self
    cases gs with
    | nil =>
      rw [encode_nil, List.nil_append, encode_cons, List.append_assoc] at h
      exact absurd h.symm (encode_bytesField_ne hf hlt hnumber c _)
    | cons g gs =>
      obtain ⟨hg, _⟩ := hwritable' g List.mem_cons_self
      rw [encode_cons, encode_cons, List.append_assoc, List.append_assoc] at h
      obtain ⟨rfl, hrest⟩ := hf.encode_append_inj hg h
      obtain ⟨rfl, hend⟩ := ih hrest (fun x hx => hwritable x (List.mem_cons_of_mem _ hx))
        (fun x hx => hwritable' x (List.mem_cons_of_mem _ hx))
      exact ⟨rfl, hend⟩

/-- Lists of as many byte strings, whose lengths fit a word, are told apart by what is written for
them, whatever follows. -/
theorem encode_bytesFields_append_inj {number : Nat} {bs cs : List Bytes} {r s : Bytes}
    (hcount : bs.length = cs.length) (hbs : ∀ b ∈ bs, b.length < 2 ^ 64)
    (hcs : ∀ c ∈ cs, c.length < 2 ^ 64)
    (h : encode (bytesFields number bs) ++ r = encode (bytesFields number cs) ++ s) :
    bs = cs ∧ r = s := by
  induction bs generalizing cs with
  | nil =>
    obtain rfl := List.eq_nil_of_length_eq_zero hcount.symm
    exact ⟨rfl, h⟩
  | cons b bs ih =>
    cases cs with
    | nil => cases hcount
    | cons c cs =>
      simp only [encode_bytesFields_cons, List.append_assoc, List.append_cancel_left_eq] at h
      obtain ⟨hwords, hrest⟩ := Varint.encode_append_inj h
      have hlength : b.length = c.length := by
        have hnumbers := congrArg UInt64.toNat hwords
        rwa [UInt64.toNat_ofNat_of_lt' (hbs b List.mem_cons_self),
          UInt64.toNat_ofNat_of_lt' (hcs c List.mem_cons_self)] at hnumbers
      obtain ⟨rfl, hmore⟩ := List.append_inj hrest hlength
      obtain ⟨rfl, hend⟩ := ih (Nat.succ.inj hcount)
        (fun x hx => hbs x (List.mem_cons_of_mem _ hx))
        (fun x hx => hcs x (List.mem_cons_of_mem _ hx)) hmore
      exact ⟨rfl, hend⟩

/-! ### Fields that are taken up again -/

theorem foldlM_append_of {α : Type} {g : α → Field → Option α} {s t u : α} {fs gs : List Field}
    (hfs : fs.foldlM g s = some t) (hgs : gs.foldlM g t = some u) :
    (fs ++ gs).foldlM g s = some u := by
  rw [List.foldlM_append, hfs]
  exact hgs

/-- A number that is left out is the one that the message already holds. -/
theorem foldlM_numberField {α : Type} {g : α → Field → Option α} {s t : α} {number : Nat}
    {v : UInt64} (hzero : v = 0 → s = t) (hset : g s ⟨number, .number v⟩ = some t) :
    (numberField number v).foldlM g s = some t := by
  unfold numberField
  split
  next hv => rw [hzero hv]; rfl
  next => simp [hset]

/-- A byte string that is left out is the one that the message already holds. -/
theorem foldlM_bytesField {α : Type} {g : α → Field → Option α} {s t : α} {number : Nat}
    {b : Bytes} (hempty : b = [] → s = t) (hset : g s ⟨number, .bytes b⟩ = some t) :
    (bytesField number b).foldlM g s = some t := by
  unfold bytesField
  split
  next hb => rw [hempty hb]; rfl
  next => simp [hset]

/-- The elements of a list are appended one by one. -/
theorem foldlM_bytesFields {α : Type} {g : α → Field → Option α} {number : Nat}
    (put : List Bytes → α)
    (hput : ∀ l b, g (put l) ⟨number, .bytes b⟩ = some (put (l ++ [b]))) (l bs : List Bytes) :
    (bytesFields number bs).foldlM g (put l) = some (put (l ++ bs)) := by
  induction bs generalizing l with
  | nil => simp [bytesFields]
  | cons b bs ih =>
    have hrest := ih (l ++ [b])
    simp only [bytesFields, List.append_assoc, List.singleton_append] at hrest
    simp [bytesFields, hput, hrest]

namespace Message

/-- A message whose fields can be written, and add up to it again, is read back, whatever depth
is left for groups. -/
theorem merge?_encode {α : Type} [Message α] {depth : Nat} {m : α} (hdepth : 0 < depth)
    (hfields : ∀ f ∈ fields m, f.Writable)
    (hfold : (fields m).foldlM (absorb depth) blank = some m) :
    merge? depth blank (encode m) = some m := by
  rw [merge?, encode, Wire.decode?_encode hdepth hfields]
  exact hfold

theorem decode?_encode {α : Type} [Message α] {m : α} (hfields : ∀ f ∈ fields m, f.Writable)
    (hfold : (fields m).foldlM (absorb 100) blank = some m) : decode? (encode m) = some m :=
  merge?_encode (by omega) hfields hfold

/-- What holds at first and is kept by every field holds at the end; `count` is the number of
fields taken up. -/
theorem exists_of_merge? {α : Type} [Message α] {P : Nat → α → Prop} {depth : Nat} {m t : α}
    {bs : Bytes} (h : merge? depth m bs = some t) (hstart : P 0 m)
    (hstep : ∀ count s f u, P count s → (∀ b, f.payload = .bytes b → b.length ≤ bs.length) →
      absorb depth s f = some u → P (count + 1) u) :
    ∃ count, count ≤ bs.length ∧ P count t := by
  obtain ⟨fs, hfs, hfold⟩ := Option.bind_eq_some_iff.mp h
  have hbounds := Wire.decode?_bounds hfs
  have hall : ∀ (gs : List Field) (s : α) (count : Nat), (∀ f ∈ gs, f ∈ fs) → P count s →
      gs.foldlM (absorb depth) s = some t → P (count + gs.length) t := by
    intro gs
    induction gs with
    | nil =>
      intro s count _ hs hfold
      cases hfold
      exact hs
    | cons f gs ih =>
      intro s count hmem hs hfold
      rw [List.foldlM_cons] at hfold
      obtain ⟨u, hu, hrest⟩ := Option.bind_eq_some_iff.mp hfold
      have hnext := hstep count s f u hs (hbounds.2 f (hmem f List.mem_cons_self)) hu
      have hend := ih u (count + 1) (fun g hg => hmem g (List.mem_cons_of_mem _ hg)) hnext hrest
      rw [List.length_cons, Nat.add_comm gs.length 1, ← Nat.add_assoc]
      exact hend
  refine ⟨fs.length, hbounds.1, ?_⟩
  have hend := hall fs m 0 (fun f hf => hf) hstart hfold
  rwa [Nat.zero_add] at hend

end Message

/-! ### Headers -/

namespace HeaderMessage

theorem foldlM_fields (depth : Nat) (m : HeaderMessage) :
    (Message.fields m).foldlM (Message.absorb depth) Message.blank = some m := by
  refine foldlM_append_of (t := { m with extra := [] }) ?_
    (foldlM_bytesField (fun h => by rw [← h]) rfl)
  refine foldlM_append_of (t := { m with ommersHash := [], extra := [] }) ?_
    (foldlM_bytesField (fun h => by rw [← h]) rfl)
  refine foldlM_append_of (t := { m with receiptsRoot := [], ommersHash := [], extra := [] }) ?_
    (foldlM_bytesField (fun h => by rw [← h]) rfl)
  refine foldlM_append_of (t := ⟨m.parentHash, m.number, m.stateRoot, [], [], [], []⟩) ?_
    (foldlM_bytesField (fun h => by rw [← h]) rfl)
  refine foldlM_append_of (t := ⟨m.parentHash, m.number, [], [], [], [], []⟩) ?_
    (foldlM_bytesField (fun h => by rw [← h]) rfl)
  refine foldlM_append_of (t := ⟨m.parentHash, 0, [], [], [], [], []⟩) ?_
    (foldlM_numberField (fun h => by rw [← h]) rfl)
  exact foldlM_bytesField (fun h => by rw [h]; rfl) rfl

theorem fields_eq (m : HeaderMessage) :
    Message.fields m = Message.fields { m with extra := [] } ++ bytesField 7 m.extra := by
  simp [Message.fields, bytesField]

theorem laid_without_extra (m : HeaderMessage) :
    Laid 6 (Message.fields { m with extra := [] }) := by
  have hparent := (group_bytesField 1 m.parentHash).laid (by omega)
  have hnumber := hparent.append (group_numberField 2 m.number) (by omega)
  have hstate := hnumber.append (group_bytesField 3 m.stateRoot) (by omega)
  have htransactions := hstate.append (group_bytesField 4 m.transactionsRoot) (by omega)
  have hreceipts := htransactions.append (group_bytesField 5 m.receiptsRoot) (by omega)
  have hommers := hreceipts.append (group_bytesField 6 m.ommersHash) (by omega)
  simpa [Message.fields, bytesField] using hommers

theorem laid (m : HeaderMessage) : Laid 7 (Message.fields m) := by
  rw [fields_eq]
  exact m.laid_without_extra.append (group_bytesField 7 m.extra) (by omega)

theorem extra_of_absorb {depth limit : Nat} {m u : HeaderMessage} {f : Field}
    (h : Message.absorb depth m f = some u) (hm : m.extra.length ≤ limit)
    (hf : ∀ b, f.payload = .bytes b → b.length ≤ limit) : u.extra.length ≤ limit := by
  simp only [Message.absorb] at h
  split at h
  case h_7 =>
    obtain ⟨b, hb, rfl⟩ := Option.map_eq_some_iff.mp h
    exact hf b (Payload.bytes?_eq_some_iff.mp hb)
  case h_8 =>
    cases h
    exact hm
  all_goals
    obtain ⟨b, _, rfl⟩ := Option.map_eq_some_iff.mp h
    exact hm

/-- Taking up bytes leaves the extra data no longer than the bytes and what was there. -/
theorem extra_of_merge? {depth limit : Nat} {m u : HeaderMessage} {bs : Bytes}
    (h : Message.merge? depth m bs = some u) (hm : m.extra.length ≤ limit)
    (hbs : bs.length ≤ limit) : u.extra.length ≤ limit := by
  obtain ⟨_, _, hu⟩ := Message.exists_of_merge? (P := fun _ x => x.extra.length ≤ limit) h hm
    fun _ s f t hs hf ht => extra_of_absorb ht hs fun b hb => (hf b hb).trans hbs
  exact hu

end HeaderMessage

/-! ### Lists that are read -/

/-- A list of at most `count` elements, none of them larger than `limit`. -/
def Within {α : Type} (size : α → Nat) (limit count : Nat) (l : List α) : Prop :=
  l.length ≤ count ∧ ∀ x ∈ l, size x ≤ limit

namespace Within

variable {α : Type} {size : α → Nat} {limit count : Nat} {l : List α}

theorem nil : Within size limit count [] :=
  ⟨Nat.zero_le _, fun _ hx => nomatch hx⟩

theorem mono {more : Nat} (h : Within size limit count l) (hle : count ≤ more) :
    Within size limit more l :=
  ⟨h.1.trans hle, h.2⟩

theorem push {x : α} (h : Within size limit count l) (hx : size x ≤ limit) :
    Within size limit (count + 1) (l ++ [x]) := by
  constructor
  · rw [List.length_append]
    exact Nat.succ_le_succ h.1
  · intro y hy
    rcases List.mem_append.mp hy with hy | hy
    · exact h.2 y hy
    · rw [List.mem_singleton.mp hy]
      exact hx

end Within

/-- The header messages that are read are no more, and their extra data no longer, than the
bytes. -/
theorem HeaderListMessage.within {depth : Nat} {bs : Bytes} {m : HeaderListMessage}
    (h : Message.merge? depth Message.blank bs = some m) :
    Within (fun x => x.extra.length) bs.length bs.length m.headers := by
  obtain ⟨count, hcount, hm⟩ := Message.exists_of_merge?
    (P := fun count (x : HeaderListMessage) =>
      Within (fun x => x.extra.length) bs.length count x.headers) h Within.nil
    (fun count s f u hs hf hu => by
      simp only [Message.absorb] at hu
      split at hu
      · obtain ⟨y, hy, rfl⟩ := Option.map_eq_some_iff.mp hu
        obtain ⟨b, hb, hy⟩ := Option.bind_eq_some_iff.mp hy
        have hb := hf b (Payload.bytes?_eq_some_iff.mp hb)
        exact hs.push (HeaderMessage.extra_of_merge? hy (Nat.zero_le _) hb)
      · cases hu
        exact hs.mono (Nat.le_succ _))
  exact hm.mono hcount

/-- The parts of a body that are read are no more, and no longer, than the bytes. -/
theorem BodyMessage.within {depth : Nat} {bs : Bytes} {m : BodyMessage}
    (h : Message.merge? depth Message.blank bs = some m) :
    Within List.length bs.length bs.length m.transactions ∧
      Within List.length bs.length bs.length m.ommers := by
  obtain ⟨count, hcount, htransactions, hommers⟩ := Message.exists_of_merge?
    (P := fun count (x : BodyMessage) =>
      Within List.length bs.length count x.transactions ∧
        Within List.length bs.length count x.ommers) h ⟨Within.nil, Within.nil⟩
    (fun count s f u hs hf hu => by
      simp only [Message.absorb] at hu
      split at hu
      · obtain ⟨b, hb, rfl⟩ := Option.map_eq_some_iff.mp hu
        exact ⟨hs.1.push (hf b (Payload.bytes?_eq_some_iff.mp hb)), hs.2.mono (Nat.le_succ _)⟩
      · obtain ⟨b, hb, rfl⟩ := Option.map_eq_some_iff.mp hu
        exact ⟨hs.1.mono (Nat.le_succ _), hs.2.push (hf b (Payload.bytes?_eq_some_iff.mp hb))⟩
      · cases hu
        exact ⟨hs.1.mono (Nat.le_succ _), hs.2.mono (Nat.le_succ _)⟩)
  exact ⟨htransactions.mono hcount, hommers.mono hcount⟩

/-- The receipts that are read are no more, and no longer, than the bytes. -/
theorem ReceiptsMessage.within {depth : Nat} {bs : Bytes} {m : ReceiptsMessage}
    (h : Message.merge? depth Message.blank bs = some m) :
    Within List.length bs.length bs.length m.receipts := by
  obtain ⟨count, hcount, hm⟩ := Message.exists_of_merge?
    (P := fun count (x : ReceiptsMessage) => Within List.length bs.length count x.receipts)
    h Within.nil
    (fun count s f u hs hf hu => by
      simp only [Message.absorb] at hu
      split at hu
      · obtain ⟨b, hb, rfl⟩ := Option.map_eq_some_iff.mp hu
        exact hs.push (hf b (Payload.bytes?_eq_some_iff.mp hb))
      · cases hu
        exact hs.mono (Nat.le_succ _))
  exact hm.mono hcount

/-- The extra data of the header beside a proof is no longer than the bytes. -/
theorem ProofMessage.extra_le {depth : Nat} {bs : Bytes} {m : ProofMessage}
    (h : Message.merge? depth Message.blank bs = some m) :
    ∀ x, m.header = some x → x.extra.length ≤ bs.length := by
  obtain ⟨_, _, hm⟩ := Message.exists_of_merge?
    (P := fun _ (x : ProofMessage) => ∀ y, x.header = some y → y.extra.length ≤ bs.length)
    h (fun _ hy => nomatch hy)
    (fun count s f u hs hf hu => by
      simp only [Message.absorb] at hu
      split at hu
      · obtain ⟨b, _, rfl⟩ := Option.map_eq_some_iff.mp hu
        exact hs
      · obtain ⟨y, hy, rfl⟩ := Option.map_eq_some_iff.mp hu
        obtain ⟨b, hb, hy⟩ := Option.bind_eq_some_iff.mp hy
        have hb := hf b (Payload.bytes?_eq_some_iff.mp hb)
        intro z hz
        cases hz
        refine HeaderMessage.extra_of_merge? hy ?_ hb
        cases hheader : s.header with
        | none => exact Nat.zero_le _
        | some x => exact hs x hheader
      · cases hu
        exact hs)
  exact hm

/-! ### Nodes -/

namespace NodeMessage

/-- A type number is written as the word that it extends to, and cut off again. -/
theorem type_word (t : Int32) : t.toInt64.toUInt64.toUInt32.toInt32 = t := by
  have hbits : (t.toBitVec.signExtend 64).setWidth 32 = t.toBitVec := by
    ext i hi
    simp [BitVec.getElem_signExtend, hi, show i < 64 by omega]
  exact Int32.toBitVec_inj.mp hbits

theorem foldlM_fields (depth : Nat) (m : NodeMessage) :
    (Message.fields m).foldlM (Message.absorb depth) Message.blank = some m := by
  refine foldlM_append_of (t := { m with value := [] }) ?_
    (foldlM_bytesField (fun h => by rw [← h]) rfl)
  refine foldlM_append_of (t := ⟨m.type, m.path, [], []⟩) ?_
    (foldlM_bytesFields (fun l => (⟨m.type, m.path, l, []⟩ : NodeMessage)) (fun _ _ => rfl) []
      m.children)
  refine foldlM_append_of (t := ⟨m.type, [], [], []⟩) ?_
    (foldlM_bytesField (fun h => by rw [← h]) rfl)
  refine foldlM_numberField (fun h => ?_) ?_
  · have htype := type_word m.type
    rw [h] at htype
    rw [← htype]
    rfl
  · simp only [Message.absorb, Payload.number?, Option.map_some, type_word]
    rfl

theorem encode_eq (m : NodeMessage) :
    Message.encode m =
      Wire.encode (numberField 1 m.type.toInt64.toUInt64) ++
        (Wire.encode (bytesField 2 m.path) ++
          (Wire.encode (bytesFields 3 m.children) ++ Wire.encode (bytesField 4 m.value))) := by
  simp only [Message.encode, Message.fields, Wire.encode, List.flatMap_append, List.append_assoc]

theorem laid (m : NodeMessage) : Laid 4 (Message.fields m) := by
  have htype := (group_numberField 1 m.type.toInt64.toUInt64).laid (by omega)
  have hpath := htype.append (group_bytesField 2 m.path) (by omega)
  have hchildren := hpath.append (group_bytesFields 3 m.children) (by omega)
  exact hchildren.append (group_bytesField 4 m.value) (by omega)

/-- A node message whose byte strings have lengths that fit a word is read back. -/
theorem decode?_encode {m : NodeMessage} (h : Measured (Message.fields m)) :
    Message.decode? (Message.encode m) = some m :=
  Message.decode?_encode (m.laid.writable (by omega) h) (foldlM_fields 100 m)

end NodeMessage

end Wire

end LightClient

import RutosSdk.Lib.Bytes
import RutosSdk.Lib.Ledger
import RutosSdk.Lib.Steps

/-! # The table of manufacturer information

Reference: `parse_prop` in `target/linux/generic/files/drivers/sysfs-mnfinfo/sysfs-mnfinfo.c`.

Each child node of the device tree is parsed into the entry of the table that has its name: the old
buffer of the entry is released, and a new one is allocated and filled from the flash or from the
node. The buffers are addresses of a heap, of which a log of allocations and releases is kept.
-/

namespace RutosSdk.Drivers.MnfInfo

open Ledger Steps

/-- `struct mnfinfo_entry`; `data` is the address of a buffer. -/
structure MnfinfoEntry where
  name : String
  is_set : Bool := false
  is_visible : Bool := false
  dt_len : Word := 0
  data : Option ℕ := none
  in_log : Bool := false
  sec : Bool := false
deriving DecidableEq, Repr

/-- `mnf_data` as it is before the first call. -/
def mnfData : List MnfinfoEntry :=
  ["mac", "maceth", "name", "wps", "serial", "hwver", "hwver_lo", "branch", "batch", "sim_cfg",
    "profiles", "sim_count", "simpin1", "simpin2", "simpin3", "simpin4", "wpass", "pass", "blver",
    "mob_cfg", "mob_vidpid_1", "mob_vidpid_2", "mob_vidpid_3", "mob_vidpid_4"].map
      fun name => { name := name }

/-- A device-tree node with the properties that are looked up. -/
structure DeviceNode where
  name : String
  compatible : Bool
  default : Option (List Byte)
  reg : Option (List Byte)
  type : Option String
  min_res_len : Option (List Byte)
  sec : Bool
  log : Bool
deriving DecidableEq, Repr

structure State where
  mnf_data : List MnfinfoEntry
  log : List (Event ℕ)
deriving DecidableEq, Repr

/-- Before the first call. -/
def init : State := ⟨mnfData, []⟩

/-- What the calls of `parse_prop` answer. `rd_node` tells whether that pointer is not null: the
answer of `of_find_node_by_phandle`, and what the stack holds for the phandle 0. `kzalloc` is an
address or null; `read` is the status of `find_trailling_data` or `mnf_readable_read`, whichever the
node asks for; `simcfg_is_set` tells whether `fix_simcfg_type` sets the entry. `astray` is what is
left when a pointer off the stack was followed. -/
structure ParseAnswers where
  rd_node : Bool
  mnf_readable_open : ℤ
  kzalloc : Option ℕ
  read : ℤ
  fix_types : ℤ
  simcfg_is_set : Bool
  astray : State × ℤ
deriving DecidableEq, Repr

/-- `ZERO_SIZE_PTR`, which stands for every buffer of no bytes and is none itself. -/
def zeroSizePtr : ℕ := 16

namespace State

def kfree (s : State) (a : ℕ) : State :=
  if a = zeroSizePtr then s else { s with log := .release a :: s.log }

def modifyEntry (s : State) (i : ℕ) (f : MnfinfoEntry → MnfinfoEntry) : State :=
  { s with mnf_data := s.mnf_data.modify i f }

/-- `e->data = kzalloc(e->dt_len)`. The allocator never returns a buffer that is live. -/
def kzalloc (s : State) (i : ℕ) (dt_len : Word) (answer : Option ℕ) : State × Option ℕ :=
  let store (data : Option ℕ) := s.modifyEntry i fun e => { e with dt_len := dt_len, data := data }
  if dt_len = 0 then (store (some zeroSizePtr), some zeroSizePtr)
  else
    match answer.filter fun a => a ∉ held s.log ∧ a ≠ zeroSizePtr with
    | none => (store none, none)
    | some a => ({ store (some a) with log := .acquire a :: s.log }, some a)

end State

/-! ## `parse_prop` -/

variable (table : List MnfinfoEntry) (s : State) (node : DeviceNode) (i : ℕ)

/-- The place of the entry with the name. -/
def findEntry (name : String) : Option ℕ := table.findIdx? (·.name = name)

/-- Where the lookup loop leaves `e`: at the entry with the name, and at the last one if there is
none. -/
def entryOf (name : String) : ℕ := (findEntry table name).getD (table.length - 1)

/-- The entry with the name of the node is set. -/
def isSet (name : String) : Bool :=
  match findEntry table name with
  | none => false
  | some i => (table[i]?.map (·.is_set)).getD false

/-- The buffer of the entry is released. -/
def clearData : State :=
  match s.mnf_data[i]?.bind (·.data) with
  | none => s
  | some a => (s.kfree a).modifyEntry i fun e => { e with data := none }

/-- The length that is reserved: that of the field, or the least one that the node asks for. -/
def dtLen (list : List Byte) : Word :=
  let reg_len := be32 (list.drop 8)
  match node.min_res_len with
  | none => reg_len + 1
  | some min_rlen =>
    if min_rlen.length = 4 ∧ reg_len < be32 min_rlen then be32 min_rlen + 1
    else reg_len + 1

/-- From the label `end` on. -/
def finish (node : DeviceNode) : State :=
  s.modifyEntry i fun e =>
    { e with sec := e.sec || node.sec, in_log := e.in_log || node.log, is_visible := true }

/-- `parse_prop` from the "default" and "reg" properties on, for entry `i`. -/
def parseData (node : DeviceNode) (k : ParseAnswers) : State × ℤ :=
  match node.reg, node.default with
  | none, some default =>
    match s.kzalloc i (BitVec.ofNat 32 (default.length + 1)) k.kzalloc with
    | (s, none) => (s, -ENOMEM)
    | (s, some _) => (finish s i node, 0)
  | none, none => (s, -EINVAL)
  | some list, _ =>
    if list.length ≠ 12 then (s, -EINVAL)
    else
      match node.type with
      | none => (s, -EINVAL)
      | some type =>
        -- with the phandle 0 the pointer is not assigned
        if ¬k.rd_node then (s, -EINVAL)
        else if be32 list = 0 then k.astray
        else if k.mnf_readable_open ≠ 0 then (s, k.mnf_readable_open)
        else
          match s.kzalloc i (dtLen node list) k.kzalloc with
          | (s, none) => (s, -ENOMEM)
          | (s, some a) =>
            if k.read ≠ 0 then (s.kfree a, -EINVAL)
            else if k.fix_types ≠ 0 then (s.kfree a, -EINVAL)
            else
              let s := s.modifyEntry i fun e =>
                { e with is_set := e.is_set || (type = "simcfg" && k.simcfg_is_set) }
              (finish s i node, 0)

/-- `parse_prop` -/
def parseProp (k : ParseAnswers) : State × ℤ :=
  if isSet s.mnf_data node.name then (s, 0)
  else if ¬node.compatible then (s, 0)
  else
    let i := entryOf s.mnf_data node.name
    parseData (clearData s i) i node k

/-- The state after a call. -/
def parse (call : DeviceNode × ParseAnswers) : State := (parseProp s call.1 call.2).1

/-- The node describes a field of the flash. -/
def Describes (list : List Byte) : Prop :=
  node.reg = some list ∧ list.length = 12 ∧ node.type ≠ none

/-- The node describes a field of a partition that has the phandle 0. -/
def NoPhandle : Prop := ∃ list, Describes node list ∧ be32 list = 0

/-- The length that a node asks for. -/
def Reserves (len : Word) : Prop :=
  (∃ list, Describes node list ∧ dtLen node list = len)
    ∨ node.reg = none ∧ ∃ default, node.default = some default
      ∧ BitVec.ofNat 32 (default.length + 1) = len

/-- The call gets as far as the flash. -/
def Reads (k : ParseAnswers) : Prop :=
  (∃ list, Describes node list) ∧ k.rd_node ∧ k.mnf_readable_open = 0 ∧ k.kzalloc ≠ none

/-- The ways in which a call ends: before it allocates, with a pointer off the stack, without
memory, with the buffer in the entry, and with the buffer released after the flash was read. -/
inductive ParseEnd (s : State) (i : ℕ) (node : DeviceNode) (k : ParseAnswers) : State → Prop
  | early : ParseEnd s i node k s
  | astray : NoPhandle node → ParseEnd s i node k k.astray.1
  | noMemory {len s'} : Reserves node len → s.kzalloc i len k.kzalloc = (s', none) →
    ParseEnd s i node k s'
  | filled {len s' a f} : Reserves node len → s.kzalloc i len k.kzalloc = (s', some a) →
    (∀ e, (f e).data = e.data) → ParseEnd s i node k (s'.modifyEntry i f)
  | failed {len s' a} : Reserves node len → s.kzalloc i len k.kzalloc = (s', some a) →
    (len ≠ 0 → Reads node k) → ¬(k.read = 0 ∧ k.fix_types = 0) → ParseEnd s i node k (s'.kfree a)

theorem State.modifyEntry_modifyEntry (f g : MnfinfoEntry → MnfinfoEntry) :
    (s.modifyEntry i f).modifyEntry i g = s.modifyEntry i (g ∘ f) := by
  rw [State.modifyEntry, State.modifyEntry, State.modifyEntry, List.modify_modify_eq]

variable {answer : Option ℕ} {f : MnfinfoEntry → MnfinfoEntry}

theorem State.ne_none_of_kzalloc {s s' : State} {i a : ℕ} {len : Word}
    (h : s.kzalloc i len answer = (s', some a)) (hlen : len ≠ 0) : answer ≠ none := by
  rintro rfl
  rw [State.kzalloc, if_neg hlen] at h
  exact absurd (congrArg Prod.snd h) (by simp)

/-- Every call ends in one of these ways. -/
theorem parseData_end (node : DeviceNode) (k : ParseAnswers) :
    ParseEnd s i node k (parseData s i node k).1 := by
  unfold parseData
  cases hreg : node.reg with
  | none =>
    cases hdefault : node.default with
    | none => exact .early
    | some default =>
      dsimp only
      cases halloc : s.kzalloc i (BitVec.ofNat 32 (default.length + 1)) k.kzalloc with
      | mk s' address =>
        have hreserves : Reserves node _ := .inr ⟨hreg, default, hdefault, rfl⟩
        cases address with
        | none => exact .noMemory hreserves halloc
        | some a => exact .filled hreserves halloc fun _ => rfl
  | some list =>
    dsimp only
    by_cases hlength : list.length = 12
    swap
    · rw [if_pos hlength]
      exact .early
    rw [if_neg (not_not_intro hlength)]
    cases htype : node.type with
    | none => exact .early
    | some type =>
      dsimp only
      have hdescribes : Describes node list := ⟨hreg, hlength, by rw [htype]; simp⟩
      by_cases hnode : k.rd_node
      swap
      · rw [if_pos hnode]
        exact .early
      rw [if_neg (not_not_intro hnode)]
      by_cases hphandle : be32 list = 0
      · rw [if_pos hphandle]
        exact .astray ⟨list, hdescribes, hphandle⟩
      by_cases hopen : k.mnf_readable_open = 0
      swap
      · rw [if_neg hphandle, if_pos hopen]
        exact .early
      rw [if_neg hphandle, if_neg (not_not_intro hopen)]
      cases halloc : s.kzalloc i (dtLen node list) k.kzalloc with
      | mk s' address =>
        have hreserves : Reserves node _ := .inl ⟨list, hdescribes, rfl⟩
        cases address with
        | none => exact .noMemory hreserves halloc
        | some a =>
          have hreads : dtLen node list ≠ 0 → Reads node k := fun hlen =>
            ⟨⟨list, hdescribes⟩, hnode, hopen, State.ne_none_of_kzalloc halloc hlen⟩
          dsimp only
          split_ifs with hread hfix
          · exact .failed hreserves halloc hreads fun h => hread h.1
          · exact .failed hreserves halloc hreads fun h => hfix h.2
          · rw [finish, State.modifyEntry_modifyEntry]
            exact .filled hreserves halloc fun _ => rfl

/-! ## Frames -/

/-- No entry but the one at `i` differs. -/
def OnlyEntry (s s' : State) : Prop :=
  s'.mnf_data.length = s.mnf_data.length ∧ ∀ j ≠ i, s'.mnf_data[j]? = s.mnf_data[j]?

namespace OnlyEntry

variable {i : ℕ} {s s' s'' : State}

theorem refl : OnlyEntry i s s := ⟨rfl, fun _ _ => rfl⟩

theorem trans (h : OnlyEntry i s s') (h' : OnlyEntry i s' s'') : OnlyEntry i s s'' :=
  ⟨h'.1.trans h.1, fun j hj => (h'.2 j hj).trans (h.2 j hj)⟩

theorem modifyEntry (f : MnfinfoEntry → MnfinfoEntry) : OnlyEntry i s (s.modifyEntry i f) := by
  refine ⟨List.length_modify _ _ _, fun j hj => ?_⟩
  rw [State.modifyEntry, List.getElem?_modify]
  simp only [if_neg (Ne.symm hj), id_map']

theorem kfree (h : OnlyEntry i s s') (a : ℕ) : OnlyEntry i s (s'.kfree a) := by
  unfold State.kfree
  split_ifs <;> exact h

theorem kzalloc {dt_len : Word} {address : Option ℕ}
    (h : s.kzalloc i dt_len answer = (s', address)) : OnlyEntry i s s' := by
  obtain rfl : (s.kzalloc i dt_len answer).1 = s' := congrArg Prod.fst h
  unfold State.kzalloc
  split_ifs
  · exact modifyEntry _
  · split
    · exact modifyEntry _
    · exact @modifyEntry i s _

theorem clearData : OnlyEntry i s (clearData s i) := by
  unfold MnfInfo.clearData
  split
  · exact refl
  · exact (refl.kfree _).trans (modifyEntry _)

theorem parseData {node : DeviceNode} (k : ParseAnswers) (hphandle : ¬NoPhandle node) :
    OnlyEntry i s (parseData s i node k).1 := by
  have hend := parseData_end s i node k
  generalize (MnfInfo.parseData s i node k).1 = s' at hend ⊢
  cases hend with
  | early => exact refl
  | astray hnone => exact absurd hnone hphandle
  | noMemory _ halloc => exact kzalloc halloc
  | filled _ halloc => exact (kzalloc halloc).trans (modifyEntry _)
  | failed _ halloc => exact (kzalloc halloc).kfree _

end OnlyEntry

/-! ## Who owns the buffers -/

/-- The data pointer of entry `j`. -/
def dataAt (s : State) (j : ℕ) : Option ℕ := s.mnf_data[j]?.bind (·.data)

/-- Only live buffers were released, and the pointers are null or live buffers of one entry each. -/
structure Owned (s : State) : Prop where
  proper : Proper s.log
  live : ∀ {j a}, dataAt s j = some a → a ∈ held s.log ∧ a ≠ zeroSizePtr
  alone : ∀ {j j' a}, dataAt s j = some a → dataAt s j' = some a → j = j'

theorem dataAt_modifyEntry_of_keeps (s : State) (i j : ℕ) (hf : ∀ e, (f e).data = e.data) :
    dataAt (s.modifyEntry i f) j = dataAt s j := by
  rw [dataAt, State.modifyEntry, List.getElem?_modify, dataAt]
  cases s.mnf_data[j]? with
  | none => rfl
  | some e => by_cases hij : i = j <;> simp [hij, hf]

theorem dataAt_modifyEntry_of_sets {s : State} {i j a : ℕ} {data : Option ℕ}
    (h : dataAt (s.modifyEntry i f) j = some a) (hf : ∀ e, (f e).data = data) :
    j = i ∧ data = some a ∨ j ≠ i ∧ dataAt s j = some a := by
  rw [dataAt, State.modifyEntry, List.getElem?_modify] at h
  by_cases hij : i = j
  · subst hij
    cases hj : s.mnf_data[i]? with
    | none => simp [hj] at h
    | some e => exact .inl ⟨rfl, by simpa [hj, hf] using h⟩
  · refine .inr ⟨Ne.symm hij, ?_⟩
    simpa [hij, dataAt] using h

namespace Owned

variable {s : State} {i : ℕ}

theorem modify_keeps (h : Owned s) (hf : ∀ e, (f e).data = e.data) : Owned (s.modifyEntry i f) where
  proper := h.proper
  live hj := h.live ((dataAt_modifyEntry_of_keeps s i _ hf).symm.trans hj)
  alone hj hj' := h.alone ((dataAt_modifyEntry_of_keeps s i _ hf).symm.trans hj)
    ((dataAt_modifyEntry_of_keeps s i _ hf).symm.trans hj')

theorem clearData (h : Owned s) : Owned (clearData s i) := by
  unfold MnfInfo.clearData
  split
  · exact h
  · rename_i a ha
    have hlive := h.live ha
    rw [State.kfree, if_neg hlive.2]
    have hother : ∀ {j b}, dataAt (State.modifyEntry { s with log := .release a :: s.log } i
        fun e => { e with data := none }) j = some b → j ≠ i ∧ dataAt s j = some b := by
      intro j b hj
      rcases dataAt_modifyEntry_of_sets hj fun _ => rfl with ⟨-, hb⟩ | hne
      · exact absurd hb (by simp)
      · exact hne
    refine ⟨⟨hlive.1, h.proper⟩, fun {j b} hj => ?_, fun hj hj' => ?_⟩
    · obtain ⟨hne, hb⟩ := hother hj
      refine ⟨h.proper.mem_held_release.mpr ⟨?_, (h.live hb).1⟩, (h.live hb).2⟩
      rintro rfl
      exact hne (h.alone hb ha)
    · exact h.alone (hother hj).2 (hother hj').2

theorem kzalloc (h : Owned s) {s' : State} {len : Word} {address : Option ℕ}
    (halloc : s.kzalloc i len answer = (s', address)) (hlen : len ≠ 0) : Owned s' := by
  obtain rfl : (s.kzalloc i len answer).1 = s' := congrArg Prod.fst halloc
  unfold State.kzalloc
  rw [if_neg hlen]
  split
  · have hother : ∀ {j b},
        dataAt (s.modifyEntry i fun e => { e with dt_len := len, data := none }) j = some b →
          dataAt s j = some b := by
      intro j b hj
      rcases dataAt_modifyEntry_of_sets hj fun _ => rfl with ⟨-, hb⟩ | hne
      · exact absurd hb (by simp)
      · exact hne.2
    exact ⟨h.proper, fun hj => h.live (hother hj), fun hj hj' => h.alone (hother hj) (hother hj')⟩
  · rename_i a ha
    have hfree : a ∉ held s.log ∧ a ≠ zeroSizePtr := by
      simpa using (Option.filter_eq_some_iff.mp ha).2
    have hcases : ∀ {j b},
        dataAt (s.modifyEntry i fun e => { e with dt_len := len, data := some a }) j = some b →
          j = i ∧ some a = some b ∨ j ≠ i ∧ dataAt s j = some b :=
      fun hj => dataAt_modifyEntry_of_sets hj fun _ => rfl
    refine ⟨⟨hfree.1, h.proper⟩, fun {j b} hj => ?_, fun {j j' b} hj hj' => ?_⟩
    · rcases hcases hj with ⟨-, hb⟩ | ⟨-, hb⟩
      · exact ⟨mem_held_acquire.mpr (.inl (Option.some.inj hb).symm), Option.some.inj hb ▸ hfree.2⟩
      · exact ⟨mem_held_acquire.mpr (.inr (h.live hb).1), (h.live hb).2⟩
    · rcases hcases hj with ⟨hji, hb⟩ | ⟨-, hb⟩ <;> rcases hcases hj' with ⟨hji', hb'⟩ | ⟨-, hb'⟩
      · rw [hji, hji']
      · exact absurd (h.live hb').1 (Option.some.inj hb ▸ hfree.1)
      · exact absurd (h.live hb).1 (Option.some.inj hb' ▸ hfree.1)
      · exact h.alone hb hb'

theorem parseData (h : Owned s) {node : DeviceNode} {k : ParseAnswers} (hphandle : ¬NoPhandle node)
    (hreserves : ¬Reserves node 0) (hreads : Reads node k → k.read = 0 ∧ k.fix_types = 0) :
    Owned (parseData s i node k).1 := by
  have hend := parseData_end s i node k
  have hlen : ∀ {len}, Reserves node len → len ≠ 0 := fun hlen hzero => hreserves (hzero ▸ hlen)
  generalize (MnfInfo.parseData s i node k).1 = s' at hend ⊢
  cases hend with
  | early => exact h
  | astray hnone => exact absurd hnone hphandle
  | noMemory hres halloc => exact h.kzalloc halloc (hlen hres)
  | filled hres halloc hf => exact (h.kzalloc halloc (hlen hres)).modify_keeps hf
  | failed hres _ hread hfail => exact absurd (hreads (hread (hlen hres))) hfail

end Owned

theorem owned_init : Owned init := by
  have hnone : ∀ j, dataAt init j = none := by
    intro j
    rw [dataAt, init, mnfData, List.getElem?_map]
    cases (_ : List String)[j]? <;> rfl
  refine ⟨trivial, fun {j a} hj => ?_, fun {j j' a} hj => ?_⟩
  · exact absurd (hnone j ▸ hj) (by simp)
  · exact absurd (hnone j ▸ hj) (by simp)

/-! ## Runs of calls -/

variable (s : State) (call : DeviceNode × ParseAnswers)

/-- A call changes no entry but the one with the name of the node. -/
def ChangesItsEntry : Prop :=
  (parse s call).mnf_data.length = s.mnf_data.length
    ∧ ∀ (j : ℕ) (e : MnfinfoEntry), s.mnf_data[j]? = some e → e.name ≠ call.1.name →
      (parse s call).mnf_data[j]? = some e

/-- The call passes over the node, or the node has an entry, its phandle is not 0, the length that
it asks for does not wrap to 0, and what is read for it is good. -/
def Sound : Prop :=
  isSet s.mnf_data call.1.name ∨ ¬call.1.compatible
    ∨ (∃ e ∈ s.mnf_data, e.name = call.1.name) ∧ ¬NoPhandle call.1 ∧ ¬Reserves call.1 0
      ∧ (Reads call.1 call.2 → call.2.read = 0 ∧ call.2.fix_types = 0)

/-- The name at the place where the lookup ends. -/
theorem name_entryOf {table : List MnfinfoEntry} {name : String} (h : ∃ e ∈ table, e.name = name)
    {e : MnfinfoEntry} (he : table[entryOf table name]? = some e) : e.name = name := by
  obtain ⟨e', he', hname⟩ := h
  unfold entryOf findEntry at he
  cases hfind : table.findIdx? (·.name = name) with
  | none =>
    have hnot := List.findIdx?_eq_none_iff.mp hfind e' he'
    exact absurd hname (by simpa using hnot)
  | some i =>
    obtain ⟨hi, hp, -⟩ := List.findIdx?_eq_some_iff_getElem.mp hfind
    rw [hfind, Option.getD_some, List.getElem?_eq_getElem hi, Option.some.injEq] at he
    rw [← he]
    simpa using hp

theorem parse_owned (h : Owned s) (hsound : Sound s call) : Owned (parse s call) := by
  unfold parse parseProp
  split_ifs with hset hcompatible
  · exact h
  · rcases hsound with hset' | hcompatible' | ⟨-, hphandle, hreserves, hreads⟩
    · exact absurd hset' hset
    · exact absurd hcompatible hcompatible'
    · exact h.clearData.parseData hphandle hreserves hreads
  · exact h

theorem changesItsEntry_of_sound (hsound : Sound s call) : ChangesItsEntry s call := by
  unfold ChangesItsEntry parse parseProp
  split_ifs with hset hcompatible
  · exact ⟨rfl, fun j e he _ => he⟩
  · rcases hsound with hset' | hcompatible' | ⟨hentry, hphandle, -⟩
    · exact absurd hset' hset
    · exact absurd hcompatible hcompatible'
    · obtain ⟨hlength, hother⟩ := OnlyEntry.trans OnlyEntry.clearData (OnlyEntry.parseData
        (s := clearData s (entryOf s.mnf_data call.1.name)) call.2 hphandle)
      refine ⟨hlength, fun j e he hname => (hother j ?_).trans he⟩
      rintro rfl
      exact hname (name_entryOf hentry he)
  · exact ⟨rfl, fun j e he _ => he⟩

/-- In a run of calls for nodes that have an entry, with nothing going wrong after a buffer was
allocated, a call changes the entry of its node only, and after each call every buffer is owned by
the entry that points to it. -/
theorem parse_run_owned {calls : List (DeviceNode × ParseAnswers)}
    (h : AllSteps parse Sound init calls) :
    AllSteps parse ChangesItsEntry init calls ∧ Throughout parse Owned init calls :=
  ⟨h.imp changesItsEntry_of_sound, throughout_of_allSteps parse_owned owned_init h⟩

/-- A node with a default value, and one whose field is in the flash. -/
def defaultNode (name : String) : DeviceNode where
  name := name
  compatible := true
  default := some [0x31]
  reg := none
  type := none
  min_res_len := none
  sec := false
  log := false

def flashNode (name : String) : DeviceNode where
  name := name
  compatible := true
  default := none
  reg := some [0, 0, 0, 1, 0, 0, 0, 0, 0, 0, 0, 6]
  type := some "mac"
  min_res_len := none
  sec := false
  log := false

/-- Everything is found; the buffer is at `address`, and the flash is read with the status `read`.
-/
def answers (address : ℕ) (read : ℤ) : ParseAnswers where
  rd_node := true
  mnf_readable_open := 0
  kzalloc := some address
  read := read
  fix_types := 0
  simcfg_is_set := false
  astray := (init, 0)

/-- A node for an entry of the table, then one read from the flash. -/
theorem parse_run_owned_two :
    AllSteps parse ChangesItsEntry init
        [(defaultNode "batch", answers 100 0), (flashNode "mac", answers 200 0)]
      ∧ Throughout parse Owned init
        [(defaultNode "batch", answers 100 0), (flashNode "mac", answers 200 0)] := by
  refine parse_run_owned ⟨.inr (.inr ⟨by decide, ?_, ?_, fun _ => ⟨rfl, rfl⟩⟩),
    .inr (.inr ⟨by decide, ?_, ?_, fun _ => ⟨rfl, rfl⟩⟩), trivial⟩
  · rintro ⟨list, ⟨hreg, -⟩, -⟩
    exact absurd hreg (by simp [defaultNode])
  · rintro (⟨list, ⟨hreg, -⟩, -⟩ | ⟨-, default, hdefault, hlen⟩)
    · exact absurd hreg (by simp [defaultNode])
    · obtain rfl := Option.some.inj hdefault
      exact absurd hlen (by decide)
  · rintro ⟨list, ⟨hreg, -⟩, hphandle⟩
    obtain rfl := Option.some.inj hreg
    exact absurd hphandle (by decide)
  · rintro (⟨list, ⟨hreg, -⟩, hlen⟩ | ⟨hreg, -⟩)
    · obtain rfl := Option.some.inj hreg
      exact absurd hlen (by decide)
    · exact absurd hreg (by simp [flashNode])

/-- A node that no entry is for changes the last entry; and when the flash cannot be read twice, the
buffer of the entry is released twice. -/
theorem parse_not_owned :
    ¬ChangesItsEntry init (defaultNode "imei", answers 100 0)
      ∧ ¬Proper (parse (parse init (flashNode "mac", answers 100 (-5)))
        (flashNode "mac", answers 200 (-5))).log := by
  constructor
  · intro h
    have hlast := h.2 23 { name := "mob_vidpid_4" } (by decide) (by decide)
    revert hlast
    decide
  · decide

end RutosSdk.Drivers.MnfInfo

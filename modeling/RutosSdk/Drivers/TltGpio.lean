import RutosSdk.Lib.Decimal
import RutosSdk.Uboot.Text

/-! # Names and directions of GPIO lines

Reference: `gpio_find_node` and `set_line_name` in `package/kernel/tlt-gpio/src/tlt_gpio.c`, with
`tlt_gpio_set_line_name` and `tlt_gpio_set_active_low` of
`target/linux/generic/pending-6.6/852-gpiolib_add_parsing_from_dts.patch`.

A node of the device tree describes a line in variants, of which the first one that is compatible
with the device is taken. The direction is handed over in a variable that is not initialized, and is
written only for a variant with a mode: a line without a mode is given the direction of the last
line before it that has one.
-/

namespace RutosSdk.Drivers.TltGpio

open Option List

open Uboot (strstr)

abbrev Str : Type := List Byte

def TOKEN_STR_SIZE : ℕ := 10

/-! ## The device tree -/

structure Property where
  name : Str
  value : List Byte
deriving DecidableEq, Repr

structure Node where
  name : Str
  properties : List Property
deriving DecidableEq, Repr

/-- `of_find_node_by_name`, among the nodes behind one: the node, and those behind it. -/
def ofFindNodeByName (nodes : List Node) (name : Str) : Option (Node × List Node) :=
  match nodes.dropWhile (·.name ≠ name) with
  | [] => none
  | node :: rest => some (node, rest)

variable (node : Node) (tree : List Node) (n : ℕ)

/-- `of_find_property` -/
def Node.ofFindProperty (name : Str) : Option Property := node.properties.find? (·.name = name)

/-- `of_property_read_string` -/
def Node.ofPropertyReadString (name : Str) : Option Str :=
  (node.ofFindProperty name).bind fun prop =>
    if prop.value.contains 0 then some (cstr prop.value) else none

/-- The strings that `of_property_for_each_string` goes through. -/
def Property.strings (prop : Property) : List Str := (prop.value.splitOn 0).dropLast

/-- `of_property_read_u32_index` -/
def Node.ofPropertyReadU32Index (name : Str) (index : ℕ) : Option ℕ :=
  (node.ofFindProperty name).bind fun prop =>
    if 4 * (index + 1) ≤ prop.value.length then
      some (((prop.value.drop (4 * index)).take 4).foldl (fun acc b => 256 * acc + b.toNat) 0)
    else none

/-! ## Lines -/

inductive Direction where
  | input
  | outputHigh
  | outputLow
deriving DecidableEq, Repr

/-- `struct gpio_desc`, as far as it is set here. -/
structure Desc where
  name : Option Str
  active_low : Bool
  direction : Direction
deriving DecidableEq, Repr

/-- `tlt_gpio_set_line_name` -/
def Desc.setLineName (desc : Desc) (name : Str) : Desc :=
  { desc with name := desc.name.or (some name) }

/-- `tlt_gpio_set_active_low`, if it is called. -/
def Desc.setActiveLow (desc : Desc) (active_low : Bool) : Desc :=
  { desc with active_low := desc.active_low || active_low }

/-- `gpiod_direction_input` or `gpiod_direction_output`, if one is called. -/
def Desc.setDirection (desc : Desc) (direction : Option Direction) : Desc :=
  { desc with direction := direction.getD desc.direction }

def GPIOD_IN : Word := 1

def GPIOD_OUT_LOW : Word := 3

def GPIOD_OUT_HIGH : Word := 7

/-- The call that `set_line_name` makes for the flags. -/
def directionOf (dflags : Word) : Option Direction :=
  if dflags = GPIOD_IN then some .input
  else if dflags = GPIOD_OUT_HIGH then some .outputHigh
  else if dflags = GPIOD_OUT_LOW then some .outputLow
  else none

/-- The variables of `set_line_name` that `gpio_find_node` writes. -/
structure Flags where
  active_low : Bool
  dflags : Word
deriving DecidableEq, Repr

/-- The device, as `read_mnf` finds it. -/
structure Device where
  model : Str
  hwver : Word
  branch : Str
deriving DecidableEq, Repr

/-- `%d`, of a number that is not negative. -/
def decimal : Str := (Decimal.unsigned n).map fun c => BitVec.ofNat 8 c.toNat

/-- The name of a property of a variant. -/
def propertyName (name : String) (prop_count i : ℕ) : Str :=
  if prop_count = 1 then str name else str name ++ str "_" ++ decimal i

/-- `strncmp(str_branch, branch, 1) == 0` -/
def sameFirst (str_branch branch : Str) : Bool := str_branch.head? = branch.head?

/-- The flags of a mode. -/
def modeFlags (mode : Str) : Option Word :=
  if mode = str "input" then some GPIOD_IN
  else if mode = str "output-high" then some GPIOD_OUT_HIGH
  else if mode = str "output-low" then some GPIOD_OUT_LOW
  else none

/-- The number of properties that name a line. -/
def Node.propCount : ℕ :=
  node.properties.countP fun prop => (strstr prop.name (str "line_name")).isSome

/-- One of the models of the property has the name of the device in it, if there is one. -/
def compatibleModel (models : Option Property) (model : Str) : Bool :=
  match models with
  | none => true
  | some prop => prop.strings.any fun str_model => (strstr str_model model).isSome

def compatibleBranch (str_branch : Option Str) (branch : Str) : Bool :=
  match str_branch with
  | none => true
  | some str_branch => sameFirst str_branch branch

/-- The version is in the range, if it has both ends. -/
def compatibleVersion (lowest highest : Option ℕ) (hwver : Word) : Bool :=
  match lowest, highest with
  | some lowest, some highest => lowest ≤ hwver.toNat && hwver.toNat ≤ highest
  | _, _ => true

/-- The loop of `gpio_find_node` from index `i` on, with the number of variants that are left. -/
def Node.findVariant (node : Node) (device : Device) (prop_count : ℕ) :
    ℕ → ℕ → Flags → Option Str × Flags
  | 0, _, flags => (none, flags)
  | n + 1, i, flags =>
    match node.ofPropertyReadString (propertyName "line_name" prop_count i) with
    | none => (none, flags)
    | some str_line =>
      let models := node.ofFindProperty (propertyName "compatible_model" prop_count i)
      let branch := node.ofPropertyReadString (propertyName "compatible_branch" prop_count i)
      let versions := propertyName "compatible_versions" prop_count i
      let lowest := node.ofPropertyReadU32Index versions 0
      let highest := node.ofPropertyReadU32Index versions 1
      if !compatibleModel models device.model then
        node.findVariant device prop_count n (i + 1) flags
      else if !compatibleBranch branch device.branch then
        node.findVariant device prop_count n (i + 1) flags
      else if !compatibleVersion lowest highest device.hwver then
        node.findVariant device prop_count n (i + 1) flags
      else
        let mode := node.ofPropertyReadString (propertyName "mode" prop_count i)
        (some str_line,
          { active_low := (node.ofFindProperty (str "active_low")).isSome
            dflags := (mode.bind modeFlags).getD flags.dflags })

/-- The node that `gpio_find_node` looks at. Without a node `tlt_gpios` all nodes are searched. -/
def gpioNode (node_name : Str) : Option Node :=
  let behind :=
    match ofFindNodeByName tree (str "tlt_gpios") with
    | none => tree
    | some (_, rest) => rest
  (ofFindNodeByName behind node_name).map Prod.fst

variable (device : Device)

/-- `gpio_find_node` -/
def gpioFindNode (node_name : Str) (device : Device) (flags : Flags) : Option Str × Flags :=
  match gpioNode tree node_name with
  | none => (none, flags)
  | some node => node.findVariant device node.propCount node.propCount 0 flags

/-- `GPIO_%d` -/
def gpioName : Str := str "GPIO_" ++ decimal n

/-- The name as it is written to a buffer of `TOKEN_STR_SIZE`. -/
def token : Str := (gpioName n).take (TOKEN_STR_SIZE - 1)

/-- `set_line_name` for the lines of a chip, the first of which has the number `i`. Lines with the
same name are reported and named nonetheless. -/
def setLineName (tree : List Node) (device : Device) : ℕ → Flags → List Desc → List Desc
  | _, _, [] => []
  | i, flags, desc :: descs =>
    let (name, flags) := gpioFindNode tree (token i) device flags
    match name with
    | some name =>
      (((desc.setActiveLow flags.active_low).setDirection (directionOf flags.dflags)).setLineName
        name) :: setLineName tree device (i + 1) flags descs
    | none => desc.setLineName (token i) :: setLineName tree device (i + 1) flags descs

/-! ## What a node declares -/

/-- One variant of a line. -/
structure Variant where
  line_name : Str
  models : Option (List Str)
  branch : Option Str
  versions : Option (ℕ × ℕ)
  mode : Option Str
deriving DecidableEq, Repr

/-- The variant with an index, if it names the line. -/
def Node.variant (i : ℕ) : Option Variant :=
  (node.ofPropertyReadString (propertyName "line_name" node.propCount i)).map fun line_name =>
    { line_name
      models := (node.ofFindProperty (propertyName "compatible_model" node.propCount i)).map
        Property.strings
      branch := node.ofPropertyReadString (propertyName "compatible_branch" node.propCount i)
      versions := Option.map₂ Prod.mk
        (node.ofPropertyReadU32Index (propertyName "compatible_versions" node.propCount i) 0)
        (node.ofPropertyReadU32Index (propertyName "compatible_versions" node.propCount i) 1)
      mode := node.ofPropertyReadString (propertyName "mode" node.propCount i) }

/-- The variants of a node, up to the first index that is missing. -/
def Node.variants : List Variant :=
  (((List.range node.propCount).map node.variant).takeWhile Option.isSome).reduceOption

/-- The variant is meant for the device: it lists the model in one of its strings, has the letter of
the branch and a range with the version, as far as it has them at all. -/
def Variant.Compatible (v : Variant) (device : Device) : Prop :=
  (∀ models ∈ v.models, ∃ m ∈ models, device.model <:+: m) ∧
    (∀ branch ∈ v.branch, branch.head? = device.branch.head?) ∧
    ∀ range ∈ v.versions, range.1 ≤ device.hwver.toNat ∧ device.hwver.toNat ≤ range.2

instance (v : Variant) (device : Device) : Decidable (v.Compatible device) :=
  inferInstanceAs (Decidable (_ ∧ _ ∧ _))

/-- The direction of a mode. -/
def modeDirection (mode : Str) : Option Direction :=
  if mode = str "input" then some .input
  else if mode = str "output-high" then some .outputHigh
  else if mode = str "output-low" then some .outputLow
  else none

/-- The settings of a line. Without a direction it is to be left as it is. -/
structure Settings where
  name : Str
  active_low : Bool
  direction : Option Direction
deriving DecidableEq, Repr

def Settings.apply (s : Settings) (desc : Desc) : Desc :=
  ((desc.setActiveLow s.active_low).setDirection s.direction).setLineName s.name

/-- What the first compatible variant of a node declares. -/
def declared (node_name : Str) : Option Settings :=
  (gpioNode tree node_name).bind fun node =>
    (node.variants.find? fun v => v.Compatible device).map fun v =>
      { name := v.line_name
        active_low := (node.ofFindProperty (str "active_low")).isSome
        direction := v.mode.bind modeDirection }

/-- The settings of a line by its own node. Without a compatible variant it has the name of the
node. -/
def ownSettings (n : ℕ) : Settings :=
  (declared tree device (gpioName n)).getD ⟨gpioName n, false, none⟩

/-- Each line is set as its own node says. -/
def NamesLines (gpio_offset : ℕ) (dflags : Word) (descs : List Desc) : Prop :=
  setLineName tree device gpio_offset ⟨false, dflags⟩ descs
    = descs.mapIdx fun k desc => (ownSettings tree device (gpio_offset + k)).apply desc

/-- The direction in the variable before line `k`: that of the last line before it that has a mode,
or the one that was there from the start. -/
def inherited (gpio_offset : ℕ) (start : Option Direction) (k : ℕ) : Option Direction :=
  ((List.range k).filterMap fun j =>
    (declared tree device (token (gpio_offset + j))).bind Settings.direction).getLast?.or start

/-- The settings that are found with the name of a node and a direction in the variable. -/
def foundSettings (node_name : Str) (start : Option Direction) : Settings :=
  match declared tree device node_name with
  | none => ⟨node_name, false, none⟩
  | some s => { s with direction := s.direction.or start }

/-- The line has a direction of its own, or there is none but its old one in the variable. From
10000 on the name of the node is cut, and what another node declares has to be the same. -/
def LineOk (n : ℕ) (start : Option Direction) (desc : Desc) : Prop :=
  if n < 10000 then
    ∀ s ∈ declared tree device (gpioName n), s.direction = none → ∀ d ∈ start, d = desc.direction
  else
    let found := foundSettings tree device (token n) start
    let own := ownSettings tree device n
    (desc.name = none → found.name = own.name) ∧
      (desc.active_low = false → found.active_low = own.active_low) ∧
      found.direction.getD desc.direction = own.direction.getD desc.direction

/-! ## The search for a variant -/

theorem directionOf_getD (mode : Option Str) (dflags : Word) :
    directionOf ((mode.bind modeFlags).getD dflags)
      = (mode.bind modeDirection).or (directionOf dflags) := by
  cases mode with
  | none => rfl
  | some mode =>
    rw [bind_some, bind_some, modeFlags, modeDirection]
    split_ifs <;> rfl

theorem isSome_strstr {s pat : Str} : (strstr s pat).isSome = true ↔ pat <:+: s := by
  rw [strstr, isSome_iff_ne_none, ne_eq, Search.findSub_eq_none_iff, not_not]

variable {tree : List Node} {node : Node} {device : Device}

theorem compatibleModel_iff {models : Option Property} {model : Str} :
    compatibleModel models model = true ↔
      ∀ strings ∈ models.map Property.strings, ∃ m ∈ strings, model <:+: m := by
  cases models with
  | none => simp [compatibleModel]
  | some prop => simp [compatibleModel, isSome_strstr]

theorem compatibleBranch_iff {str_branch : Option Str} {branch : Str} :
    compatibleBranch str_branch branch = true ↔ ∀ b ∈ str_branch, b.head? = branch.head? := by
  cases str_branch with
  | none => simp [compatibleBranch]
  | some b => simp [compatibleBranch, sameFirst]

theorem compatibleVersion_iff {lowest highest : Option ℕ} {hwver : Word} :
    compatibleVersion lowest highest hwver = true ↔
      ∀ range ∈ Option.map₂ Prod.mk lowest highest,
        range.1 ≤ hwver.toNat ∧ hwver.toNat ≤ range.2 := by
  cases lowest with
  | none => simp [compatibleVersion]
  | some lowest =>
    cases highest with
    | none => simp [compatibleVersion]
    | some highest => simp [compatibleVersion]

theorem findVariant_of_none {n i : ℕ} {flags : Flags} (h : node.variant i = none) :
    node.findVariant device node.propCount (n + 1) i flags = (none, flags) := by
  rw [Node.variant, map_eq_none_iff] at h
  rw [Node.findVariant, h]

/-- What the search gives and leaves in the variables when it takes a variant, or none. -/
def Node.taken (node : Node) (flags : Flags) : Option Variant → Option Str × Flags
  | none => (none, flags)
  | some v => (some v.line_name,
    { active_low := (node.ofFindProperty (str "active_low")).isSome
      dflags := (v.mode.bind modeFlags).getD flags.dflags })

/-- A variant is taken if it is compatible. -/
theorem findVariant_of_some {n i : ℕ} {flags : Flags} {v : Variant} (h : node.variant i = some v) :
    node.findVariant device node.propCount (n + 1) i flags
      = if v.Compatible device then node.taken flags (some v)
        else node.findVariant device node.propCount n (i + 1) flags := by
  obtain ⟨str_line, hline, rfl⟩ := map_eq_some_iff.mp h
  rw [Node.findVariant, hline]
  unfold Variant.Compatible
  simp only [← compatibleModel_iff, ← compatibleBranch_iff, ← compatibleVersion_iff, Node.taken]
  split_ifs <;> simp_all

/-- The variants from an index on. -/
def Node.variantsFrom (node : Node) (i n : ℕ) : List Variant :=
  (((List.range' i n).map node.variant).takeWhile Option.isSome).reduceOption

theorem variantsFrom_of_none {i : ℕ} (h : node.variant i = none) (n : ℕ) :
    node.variantsFrom i (n + 1) = [] := by
  rw [Node.variantsFrom, List.range'_succ, map_cons, h, takeWhile_cons_of_neg (by simp)]
  rfl

theorem variantsFrom_of_some {i : ℕ} {v : Variant} (h : node.variant i = some v) (n : ℕ) :
    node.variantsFrom i (n + 1) = v :: node.variantsFrom (i + 1) n := by
  rw [Node.variantsFrom, List.range'_succ, map_cons, h, takeWhile_cons_of_pos rfl]
  rfl

/-- The loop finds the first compatible variant. -/
theorem findVariant_eq (i : ℕ) (flags : Flags) :
    node.findVariant device node.propCount n i flags
      = node.taken flags ((node.variantsFrom i n).find? fun v => v.Compatible device) := by
  induction n generalizing i with
  | zero => rfl
  | succ n ih =>
    cases hv : node.variant i with
    | none => rw [findVariant_of_none hv, variantsFrom_of_none hv, List.find?_nil, Node.taken]
    | some v =>
      rw [findVariant_of_some hv, variantsFrom_of_some hv]
      by_cases hc : v.Compatible device
      · rw [if_pos hc, List.find?_cons_of_pos (by simpa using hc)]
      · rw [if_neg hc, List.find?_cons_of_neg (by simpa using hc), ih]

theorem gpioFindNode_eq {node_name : Str} (h : gpioNode tree node_name = some node)
    (flags : Flags) :
    gpioFindNode tree node_name device flags
      = node.taken flags (node.variants.find? fun v => v.Compatible device) := by
  have hvariants : node.variants = node.variantsFrom 0 node.propCount := by
    rw [Node.variants, Node.variantsFrom, range_eq_range']
  rw [gpioFindNode, h, hvariants]
  exact findVariant_eq node.propCount 0 flags

theorem gpioFindNode_of_none {node_name : Str} (h : declared tree device node_name = none)
    (flags : Flags) : gpioFindNode tree node_name device flags = (none, flags) := by
  cases hnode : gpioNode tree node_name with
  | none => rw [gpioFindNode, hnode]
  | some node =>
    rw [declared, hnode, bind_some, map_eq_none_iff] at h
    rw [gpioFindNode_eq hnode, h, Node.taken]

/-- What the search gives, and what it leaves in the variables. -/
theorem gpioFindNode_of_some {node_name : Str} {s : Settings}
    (h : declared tree device node_name = some s) (flags : Flags) :
    ∃ dflags, gpioFindNode tree node_name device flags = (some s.name, ⟨s.active_low, dflags⟩) ∧
      directionOf dflags = s.direction.or (directionOf flags.dflags) := by
  obtain ⟨node, hnode, h⟩ := bind_eq_some_iff.mp h
  obtain ⟨v, hv, rfl⟩ := map_eq_some_iff.mp h
  rw [gpioFindNode_eq hnode, hv]
  exact ⟨_, rfl, directionOf_getD v.mode flags.dflags⟩

/-! ## One line after the other -/

theorem setLineName_of_none {i : ℕ} {flags : Flags} {desc : Desc} {descs : List Desc}
    (h : declared tree device (token i) = none) :
    setLineName tree device i flags (desc :: descs)
      = (foundSettings tree device (token i) (directionOf flags.dflags)).apply desc
        :: setLineName tree device (i + 1) flags descs := by
  rw [setLineName, gpioFindNode_of_none h, foundSettings, h]
  cases desc
  simp [Settings.apply, Desc.setLineName, Desc.setActiveLow, Desc.setDirection]

theorem setLineName_of_some {i : ℕ} {flags : Flags} {desc : Desc} {descs : List Desc}
    {s : Settings} (h : declared tree device (token i) = some s) :
    ∃ flags', directionOf flags'.dflags = s.direction.or (directionOf flags.dflags) ∧
      setLineName tree device i flags (desc :: descs)
        = (foundSettings tree device (token i) (directionOf flags.dflags)).apply desc
          :: setLineName tree device (i + 1) flags' descs := by
  obtain ⟨dflags, hfind, hdirection⟩ := gpioFindNode_of_some h flags
  refine ⟨⟨s.active_low, dflags⟩, hdirection, ?_⟩
  rw [setLineName, hfind, foundSettings, h]
  dsimp only
  rw [hdirection]
  rfl

/-- The direction in the variable goes from one line to the next. -/
theorem inherited_succ (i k : ℕ) (start : Option Direction) :
    inherited tree device i start (k + 1)
      = inherited tree device (i + 1)
          (((declared tree device (token i)).bind Settings.direction).or start) k := by
  unfold inherited
  rw [range_succ_eq_map, filterMap_cons, filterMap_map, Nat.add_zero]
  have hshift : (fun j => (declared tree device (token (i + j))).bind Settings.direction) ∘ Nat.succ
      = fun j => (declared tree device (token (i + 1 + j))).bind Settings.direction := by
    funext j
    rw [Function.comp_apply, Nat.succ_eq_add_one, Nat.add_right_comm, Nat.add_assoc i j 1]
  rw [hshift]
  cases hd : (declared tree device (token i)).bind Settings.direction with
  | none => rfl
  | some d =>
    rw [List.getLast?_cons, some_or, some_or]
    generalize List.getLast? _ = last
    cases last <;> rfl

/-- The lines of a chip, each with the direction that is in the variable before it. -/
theorem setLineName_eq (descs : List Desc) (i : ℕ) (flags : Flags) :
    setLineName tree device i flags descs
      = descs.mapIdx fun k desc => (foundSettings tree device (token (i + k))
          (inherited tree device i (directionOf flags.dflags) k)).apply desc := by
  induction descs generalizing i flags with
  | nil => rfl
  | cons desc descs ih =>
    have hstart : inherited tree device i (directionOf flags.dflags) 0
        = directionOf flags.dflags := rfl
    rw [mapIdx_cons, Nat.add_zero, hstart]
    simp only [inherited_succ, ← Nat.add_assoc, Nat.add_right_comm i _ 1]
    cases h : declared tree device (token i) with
    | none => rw [setLineName_of_none h, ih, bind_none, none_or]
    | some s =>
      obtain ⟨flags', hdirection, heq⟩ := @setLineName_of_some _ _ i flags desc descs s h
      rw [heq, ih, hdirection, bind_some]

/-! ## When each line is set by its own node -/

theorem token_eq_gpioName {n : ℕ} (h : n < 10000) : token n = gpioName n := by
  refine take_of_length_le ?_
  have hdigits : (Decimal.unsigned n).length ≤ 4 := Decimal.length_unsigned_le (by decide) h
  rw [gpioName, length_append, decimal, length_map]
  have hfive : (str "GPIO_").length = 5 := by decide
  rw [hfive, TOKEN_STR_SIZE]
  omega

theorem apply_eq_apply_iff (s s' : Settings) (desc : Desc) :
    s.apply desc = s'.apply desc ↔
      (desc.name = none → s.name = s'.name) ∧
        (desc.active_low = false → s.active_low = s'.active_low) ∧
        s.direction.getD desc.direction = s'.direction.getD desc.direction := by
  obtain ⟨name, active_low, direction⟩ := desc
  cases name <;> cases active_low <;>
    simp [Settings.apply, Desc.setLineName, Desc.setActiveLow, Desc.setDirection, and_left_comm]

theorem lineOk_iff (start : Option Direction) (desc : Desc) :
    (foundSettings tree device (token n) start).apply desc
        = (ownSettings tree device n).apply desc ↔
      LineOk tree device n start desc := by
  rw [apply_eq_apply_iff, LineOk]
  split_ifs with hn
  · rw [token_eq_gpioName hn, foundSettings, ownSettings]
    cases declared tree device (gpioName n) with
    | none => simp
    | some s =>
      cases hd : s.direction with
      | none => cases start <;> simp [hd]
      | some d => simp [hd]
  · rfl

/-- Every line is set as its own node says if and only if every line with a compatible variant has a
direction of its own, or finds none but its old one in the variable. From the number 10000 on, what
is found with the cut name has to be the same. -/
theorem namesLines_iff (tree : List Node) (device : Device) (gpio_offset : ℕ) (dflags : Word)
    (descs : List Desc) :
    NamesLines tree device gpio_offset dflags descs ↔
      ∀ k desc, descs[k]? = some desc → LineOk tree device (gpio_offset + k)
          (inherited tree device gpio_offset (directionOf dflags) k) desc := by
  rw [NamesLines, setLineName_eq, List.ext_getElem?_iff]
  refine forall_congr' fun k => ?_
  rw [List.getElem?_mapIdx, List.getElem?_mapIdx]
  cases descs[k]? with
  | none => simp
  | some desc => simp [lineOk_iff]

/-- The nodes for the RS485 transceiver of `ramips/dts/mt7628an_teltonika_rut14x.dts`. -/
def rs485Nodes : List Node :=
  [⟨str "tlt_gpios", []⟩, ⟨str "GPIO_38", [⟨str "line_name", str "GPIO_RS485_RX_EN" ++ [0]⟩,
      ⟨str "compatible_model", str "RUT145" ++ [0]⟩, ⟨str "mode", str "output-low" ++ [0]⟩]⟩,
    ⟨str "GPIO_44", [⟨str "line_name", str "GPIO_RS485_D_EN" ++ [0]⟩,
      ⟨str "compatible_model", str "RUT145" ++ [0]⟩]⟩]

/-- The line 44 has no mode, and becomes an output like the line 38. -/
theorem not_namesLines :
    ¬NamesLines rs485Nodes ⟨str "RUT145", 0, []⟩ 32 0
      (List.replicate 32 ⟨none, false, .input⟩) := by
  intro h
  have hline := congrArg (fun descs => descs[12]?.map Desc.direction) h
  revert hline
  decide

end RutosSdk.Drivers.TltGpio

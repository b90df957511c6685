import ReflexOS.GooseAtlas
import ReflexOS.PythonText

set_option autoImplicit false

/-!
# From the register description to the catalogue

The scraper walks the peripherals of a register description, expands arrays of registers, numbers
what it names and writes the catalogue out sorted.
-/
namespace ReflexOS.Goose
open VmTernary BinarySearch PythonText

structure SvdField where
  name : Text
  bitOffset : ℕ
  bitWidth : ℕ

structure SvdRegister where
  name : Option Text
  addressOffset : Option ℕ
  dim : Option ℤ
  dimIncrement : Option ℕ
  fields : List SvdField

structure SvdPeripheral where
  name : Text
  baseAddress : ℕ
  registers : List SvdRegister

/-- An entry of `shadow_nodes`. -/
structure ScrapedNode where
  name : Text
  addr : ℕ
  mask : ℕ
  f : ℤ
  r : ℕ
  c : ℕ
  type : CellType

/-- The zones with their fields; another zone has no counter. -/
def zoneMap : List (Text × ℤ) :=
  [(text "perception", -1), (text "sys", 0), (text "agency", 1), (text "comm", 2),
    (text "logic", 3), (text "radio", 4)]

def nodeType (zone : Text) : CellType :=
  if zone = text "perception" then .hardwareIn
  else if zone = text "agency" then .hardwareOut
  else if zone = text "sys" ∨ zone = text "logic" then .systemOnly
  else if zone = text "comm" then .hardwareOut
  else if zone = text "radio" then .systemOnly
  else .virtual

/-- `t.replace("%s", by)`. -/
def replaceIndex (t new : Text) : Text :=
  match t with
  | '%' :: 's' :: rest => new ++ replaceIndex rest new
  | c :: rest => c :: replaceIndex rest new
  | [] => []

/-- `"%s" in t`. -/
def hasIndex (t : Text) : Bool :=
  match t with
  | '%' :: 's' :: _ => true
  | _ :: rest => hasIndex rest
  | [] => false

/-- The names and addresses of the registers that one element describes; `none` for a bad `dim`. -/
def instances (base : ℕ) (name : Text) (offset : ℕ) (r : SvdRegister) : Option (List (Text × ℕ)) :=
  if hasIndex name then
    let dim := r.dim.getD 1
    if 0 < dim then
      some ((List.range dim.toNat).map fun idx =>
        (replaceIndex name (text (toString idx)), base + offset + idx * r.dimIncrement.getD 4))
    else none
  else some [(name, base + offset)]

/-- What the loop over a peripheral carries: the nodes it has appended and `cell_idx`. -/
structure Walk where
  nodes : List ScrapedNode
  cellIdx : ℕ

section Peripheral

variable (zone : Text) (field : ℤ) (region : ℕ)

def Walk.emit (w : Walk) (name : Text) (addr mask : ℕ) : Walk :=
  ⟨w.nodes ++ [⟨name, addr, mask, field, region, w.cellIdx, nodeType zone⟩], w.cellIdx + 1⟩

def dotText : Text := text "."

-- `lower` is Python's `str.lower`
variable (lower : Text → Text)

def emitFields (gname : Text) (addr : ℕ) (fields : List SvdField) (w : Walk) : Walk :=
  fields.foldl (fun w fld =>
    w.emit zone field region (gname ++ dotText ++ lower fld.name) addr
      (((1 <<< fld.bitWidth) - 1) <<< fld.bitOffset)) w

def registerName (pName instName : Text) : Text :=
  zone ++ dotText ++ lower pName ++ dotText ++ lower instName

def emitInstances (pName : Text) (fields : List SvdField) (all : List (Text × ℕ)) (w : Walk) :
    Walk :=
  all.foldl (fun w inst =>
    let gname := registerName zone lower pName inst.1
    emitFields zone field region lower gname inst.2 fields
      (w.emit zone field region gname inst.2 0xFFFFFFFF)) w

def scrapeRegister (p : SvdPeripheral) (w : Walk) (r : SvdRegister) : Option Walk :=
  match r.name with
  | none => some w
  | some name =>
    match r.addressOffset with
    | none => some w
    | some offset =>
      (instances p.baseAddress name offset r).map fun all =>
        emitInstances zone field region lower p.name r.fields all w

def scrapeRegisters (p : SvdPeripheral) : List SvdRegister → Walk → Option Walk
  | [], w => some w
  | r :: rs, w => (scrapeRegister zone field region lower p w r).bind (scrapeRegisters p rs)

end Peripheral

/-- The peripherals in turn, with `shadow_nodes` and `zone_counters`. -/
def scrapePeripherals (lower : Text → Text) (zones : Text → Option Text) :
    List SvdPeripheral → List ScrapedNode → (Text → ℕ) → Option (List ScrapedNode)
  | [], nodes, _ => some nodes
  | p :: ps, nodes, counters =>
    let zone := (zones p.name).getD (text "sys")
    match zoneMap.lookup zone with
    | none => none
    | some field =>
      (scrapeRegisters zone field (counters zone) lower p p.registers ⟨nodes, 0⟩).bind fun w =>
        scrapePeripherals lower zones ps w.nodes
          (Function.update counters zone (counters zone + 1))

def isAscii (t : Text) : Bool := t.all fun c => decide (c.toNat < 128)

/-- `encode("ascii")` of a text that is. -/
def encodeAscii (t : Text) : CName := t.map fun c => UInt8.ofNat c.toNat

/-- `scrape_svd`; `none` where an assertion fails or a zone is unknown. -/
def scrapeSvd (lower : Text → Text) (zones : Text → Option Text) (svd : List SvdPeripheral) :
    Option (List ScrapedNode) :=
  match scrapePeripherals lower zones svd [] (fun _ => 0) with
  | none => none
  | some nodes =>
    if nodes.all fun n => isAscii n.name then
      some (nodes.mergeSort fun a b => (compare (encodeAscii a.name) (encodeAscii b.name)).isLE)
    else none

/-- The entry as the compiler reads it back from the file. -/
def ScrapedNode.compiled (n : ScrapedNode) : ShadowNode where
  name := encodeAscii n.name
  addr := n.addr % 2 ^ 32
  bitMask := n.mask % 2 ^ 32
  f := Int8.ofInt n.f
  r := Int8.ofInt n.r
  c := Int16.ofInt n.c
  type := n.type

/-- `shadow_map`. -/
def shadowMapOf (nodes : List ScrapedNode) : List ShadowNode := nodes.map ScrapedNode.compiled

/-- A name, an address and a mask. -/
abbrev Row := Text × ℕ × ℕ

section Rows

variable (lower : Text → Text) (zone : Text)

def fieldRow (gname : Text) (addr : ℕ) (fld : SvdField) : Row :=
  (gname ++ dotText ++ lower fld.name, addr, ((1 <<< fld.bitWidth) - 1) <<< fld.bitOffset)

def instanceRows (pName : Text) (fields : List SvdField) (inst : Text × ℕ) : List Row :=
  let gname := registerName zone lower pName inst.1
  (gname, inst.2, 0xFFFFFFFF) :: fields.map (fieldRow lower gname inst.2)

/-- The instances a register element describes, none where it is passed over. -/
def SvdRegister.instances (p : SvdPeripheral) (r : SvdRegister) : List (Text × ℕ) :=
  match r.name, r.addressOffset with
  | some name, some offset => (Goose.instances p.baseAddress name offset r).getD []
  | _, _ => []

def peripheralRows (p : SvdPeripheral) : List Row :=
  p.registers.flatMap fun r => (r.instances p).flatMap (instanceRows lower zone p.name r.fields)

/-- What a register description documents of one peripheral. -/
inductive Documents (p : SvdPeripheral) : Text → ℕ → ℕ → Prop where
  | register {r : SvdRegister} {inst : Text × ℕ} (hr : r ∈ p.registers)
      (hi : inst ∈ r.instances p) :
      Documents p (registerName zone lower p.name inst.1) inst.2 0xFFFFFFFF
  | field {r : SvdRegister} {inst : Text × ℕ} {fld : SvdField} (hr : r ∈ p.registers)
      (hi : inst ∈ r.instances p) (hf : fld ∈ r.fields) :
      Documents p (registerName zone lower p.name inst.1 ++ dotText ++ lower fld.name) inst.2
        (((1 <<< fld.bitWidth) - 1) <<< fld.bitOffset)

variable {lower zone}

theorem mem_peripheralRows {p : SvdPeripheral} {name : Text} {addr mask : ℕ} :
    (name, addr, mask) ∈ peripheralRows lower zone p ↔ Documents lower zone p name addr mask := by
  constructor
  · intro h
    obtain ⟨r, hr, h⟩ := List.mem_flatMap.mp h
    obtain ⟨inst, hi, h⟩ := List.mem_flatMap.mp h
    rcases List.mem_cons.mp h with h | h
    · cases h
      exact .register hr hi
    · obtain ⟨fld, hf, h⟩ := List.mem_map.mp h
      cases h
      exact .field hr hi hf
  · intro h
    cases h with
    | register hr hi =>
      exact List.mem_flatMap.mpr ⟨_, hr, List.mem_flatMap.mpr ⟨_, hi, List.mem_cons_self⟩⟩
    | field hr hi hf =>
      exact List.mem_flatMap.mpr ⟨_, hr, List.mem_flatMap.mpr ⟨_, hi,
        List.mem_cons_of_mem _ (List.mem_map_of_mem hf)⟩⟩

variable (field : ℤ) (region : ℕ)

def Walk.emitRow (zone : Text) (w : Walk) (row : Row) : Walk :=
  w.emit zone field region row.1 row.2.1 row.2.2

/-- A row numbered and filed. -/
def rowNode (zone : Text) (row : Row × ℕ) : ScrapedNode :=
  ⟨row.1.1, row.1.2.1, row.1.2.2, field, region, row.2, nodeType zone⟩

variable {field region}

theorem emitRows_nodes (rows : List Row) (w : Walk) :
    rows.foldl (Walk.emitRow field region zone) w =
      ⟨w.nodes ++ (rows.zipIdx w.cellIdx).map (rowNode field region zone),
        w.cellIdx + rows.length⟩ := by
  induction rows generalizing w with
  | nil => simp
  | cons row rows ih =>
    rw [List.foldl_cons, ih]
    simp [Walk.emitRow, Walk.emit, rowNode, Nat.add_assoc, Nat.add_comm 1]

theorem emitInstances_eq (pName : Text) (fields : List SvdField) (all : List (Text × ℕ))
    (w : Walk) : emitInstances zone field region lower pName fields all w =
      (all.flatMap (instanceRows lower zone pName fields)).foldl
        (Walk.emitRow field region zone) w := by
  rw [emitInstances, List.foldl_flatMap]
  congr 1
  funext w inst
  rw [instanceRows, List.foldl_cons, List.foldl_map]
  rfl

theorem scrapeRegister_eq {p : SvdPeripheral} {r : SvdRegister} {w w' : Walk}
    (h : scrapeRegister zone field region lower p w r = some w') :
    w' = ((r.instances p).flatMap (instanceRows lower zone p.name r.fields)).foldl
      (Walk.emitRow field region zone) w := by
  unfold scrapeRegister at h
  unfold SvdRegister.instances
  cases hn : r.name with
  | none =>
    rw [hn] at h
    exact (Option.some.inj h).symm
  | some name =>
    cases ho : r.addressOffset with
    | none =>
      rw [hn, ho] at h
      exact (Option.some.inj h).symm
    | some offset =>
      rw [hn, ho] at h
      obtain ⟨all, hall, rfl⟩ := Option.map_eq_some_iff.mp h
      dsimp only
      rw [hall, emitInstances_eq]
      rfl

theorem scrapeRegisters_eq {p : SvdPeripheral} {rs : List SvdRegister} {w w' : Walk}
    (h : scrapeRegisters zone field region lower p rs w = some w') :
    w' = (rs.flatMap fun r => (r.instances p).flatMap
        (instanceRows lower zone p.name r.fields)).foldl (Walk.emitRow field region zone) w := by
  induction rs generalizing w with
  | nil => exact (Option.some.inj h).symm
  | cons r rs ih =>
    obtain ⟨mid, hmid, hrest⟩ := Option.bind_eq_some_iff.mp h
    rw [ih hrest, scrapeRegister_eq hmid, List.flatMap_cons, List.foldl_append]

end Rows

section Catalogue

variable {lower : Text → Text} {zones : Text → Option Text} {svd : List SvdPeripheral}
  {nodes : List ScrapedNode}

def zoneOf (zones : Text → Option Text) (p : SvdPeripheral) : Text :=
  (zones p.name).getD (text "sys")

/-- What a register description documents: a name with its address, mask and type. -/
def SvdDocuments (lower : Text → Text) (zones : Text → Option Text) (svd : List SvdPeripheral)
    (name : Text) (addr mask : ℕ) (type : CellType) : Prop :=
  ∃ p ∈ svd, Documents lower (zoneOf zones p) p name addr mask ∧ type = nodeType (zoneOf zones p)

def ScrapedNode.place (n : ScrapedNode) : ℤ × ℕ × ℕ := (n.f, n.r, n.c)

/-- The nodes of peripherals that are still to come stand past the counters. -/
structure Scraped (lower : Text → Text) (zones : Text → Option Text) (svd : List SvdPeripheral)
    (counters : Text → ℕ) (new : List ScrapedNode) : Prop where
  documented : ∀ name addr mask type, SvdDocuments lower zones svd name addr mask type ↔
    ∃ n ∈ new, n.name = name ∧ n.addr = addr ∧ n.mask = mask ∧ n.type = type
  zone : ∀ n ∈ new, ∃ z, zoneMap.lookup z = some n.f ∧ counters z ≤ n.r
  places : (new.map ScrapedNode.place).Nodup

theorem zoneMap_inj {z z' : Text} {f : ℤ} (h : zoneMap.lookup z = some f)
    (h' : zoneMap.lookup z' = some f) : z = z' := by
  have hfields : (zoneMap.map Prod.snd).Nodup := by decide
  have hmem : ∀ {z : Text}, zoneMap.lookup z = some f → (z, f) ∈ zoneMap := by
    intro z h
    obtain ⟨l₁, l₂, hl, -⟩ := List.lookup_eq_some_iff.mp h
    rw [hl]
    simp
  exact congrArg Prod.fst (List.inj_on_of_nodup_map hfields (hmem h) (hmem h') rfl)

/-- One peripheral's nodes: numbered from zero, in its own region. -/
def peripheralNodes (lower : Text → Text) (zone : Text) (field : ℤ) (region : ℕ)
    (p : SvdPeripheral) : List ScrapedNode :=
  ((peripheralRows lower zone p).zipIdx 0).map (rowNode field region zone)

theorem mem_peripheralNodes {zone : Text} {field : ℤ} {region : ℕ} {p : SvdPeripheral}
    (name : Text) (addr mask : ℕ) (type : CellType) :
    (∃ n ∈ peripheralNodes lower zone field region p,
        n.name = name ∧ n.addr = addr ∧ n.mask = mask ∧ n.type = type) ↔
      Documents lower zone p name addr mask ∧ type = nodeType zone := by
  rw [← mem_peripheralRows]
  constructor
  · rintro ⟨n, hn, rfl, rfl, rfl, rfl⟩
    obtain ⟨⟨row, i⟩, hrow, rfl⟩ := List.mem_map.mp hn
    exact ⟨List.fst_mem_of_mem_zipIdx hrow, rfl⟩
  · rintro ⟨hrow, rfl⟩
    obtain ⟨i, hi, hrow⟩ := List.mem_iff_getElem.mp hrow
    refine ⟨rowNode field region zone ((name, addr, mask), i), ?_, rfl, rfl, rfl, rfl⟩
    exact List.mem_map_of_mem
      (List.mk_mem_zipIdx_iff_getElem?.mpr (hrow ▸ List.getElem?_eq_getElem hi))

theorem peripheralNodes_places (zone : Text) (field : ℤ) (region : ℕ) (p : SvdPeripheral) :
    ((peripheralNodes lower zone field region p).map ScrapedNode.place).Nodup := by
  have hplaces : (peripheralNodes lower zone field region p).map ScrapedNode.place =
      (List.range' 0 (peripheralRows lower zone p).length).map fun i => (field, region, i) := by
    rw [peripheralNodes, List.map_map, ← List.zipIdx_map_snd, List.map_map]
    rfl
  rw [hplaces]
  exact List.Nodup.map (fun i j h => congrArg (fun x : ℤ × ℕ × ℕ => x.2.2) h)
    (by simp [List.nodup_range'])

theorem peripheralNodes_home {zone : Text} {field : ℤ} {region : ℕ} {p : SvdPeripheral}
    {n : ScrapedNode} (hn : n ∈ peripheralNodes lower zone field region p) :
    n.f = field ∧ n.r = region := by
  obtain ⟨row, -, rfl⟩ := List.mem_map.mp hn
  exact ⟨rfl, rfl⟩

theorem Scraped.cons {counters : Text → ℕ} {new : List ScrapedNode} {p : SvdPeripheral} {field : ℤ}
    (hfield : zoneMap.lookup (zoneOf zones p) = some field)
    (h : Scraped lower zones svd
      (Function.update counters (zoneOf zones p) (counters (zoneOf zones p) + 1)) new) :
    Scraped lower zones (p :: svd) counters
      (peripheralNodes lower (zoneOf zones p) field (counters (zoneOf zones p)) p ++ new) where
  documented name addr mask type := by
    have hhead := @mem_peripheralNodes lower (zoneOf zones p) field (counters (zoneOf zones p)) p
      name addr mask type
    have htail := h.documented name addr mask type
    simp only [List.mem_append, or_and_right, exists_or, hhead, ← htail, SvdDocuments,
      List.mem_cons, exists_eq_left]
  zone n hn := by
    rcases List.mem_append.mp hn with hn | hn
    · obtain ⟨hf, hr⟩ := peripheralNodes_home hn
      exact ⟨_, hf ▸ hfield, hr.ge⟩
    · obtain ⟨z, hz, hle⟩ := h.zone n hn
      refine ⟨z, hz, le_trans ?_ hle⟩
      by_cases hzone : z = zoneOf zones p
      · subst hzone
        simp
      · simp [hzone]
  places := by
    rw [List.map_append]
    refine List.Nodup.append (peripheralNodes_places _ _ _ _) h.places ?_
    intro place hhead htail
    obtain ⟨a, ha, rfl⟩ := List.mem_map.mp hhead
    obtain ⟨b, hb, hplace⟩ := List.mem_map.mp htail
    obtain ⟨hf, hr⟩ := peripheralNodes_home ha
    obtain ⟨z, hz, hle⟩ := h.zone b hb
    have hbf : b.f = field := (congrArg Prod.fst hplace).trans hf
    have hbr : b.r = counters (zoneOf zones p) :=
      (congrArg (fun x : ℤ × ℕ × ℕ => x.2.1) hplace).trans hr
    -- a later peripheral of the same zone has a greater region
    obtain rfl := zoneMap_inj (hbf ▸ hz) hfield
    simp only [Function.update_self] at hle
    omega

theorem scrapePeripherals_scraped {counters : Text → ℕ} {nodes out : List ScrapedNode}
    (h : scrapePeripherals lower zones svd nodes counters = some out) :
    ∃ new, out = nodes ++ new ∧ Scraped lower zones svd counters new := by
  induction svd generalizing nodes counters with
  | nil =>
    refine ⟨[], by simpa using (Option.some.inj h).symm, ⟨?_, ?_, List.nodup_nil⟩⟩
    · intro name addr mask type
      simp [SvdDocuments]
    · intro n hn
      cases hn
  | cons p svd ih =>
    rw [scrapePeripherals] at h
    change (match zoneMap.lookup (zoneOf zones p) with
      | none => none
      | some field => _) = some out at h
    cases hfield : zoneMap.lookup (zoneOf zones p) with
    | none =>
      rw [hfield] at h
      cases h
    | some field =>
      rw [hfield] at h
      obtain ⟨w, hw, hrest⟩ := Option.bind_eq_some_iff.mp h
      have hwalk := scrapeRegisters_eq hw
      rw [emitRows_nodes] at hwalk
      obtain ⟨new, rfl, hnew⟩ := ih hrest
      refine ⟨_, ?_, hnew.cons hfield⟩
      rw [hwalk, ← List.append_assoc]
      rfl

theorem scrapeSvd_cases (h : scrapeSvd lower zones svd = some nodes) :
    Scraped lower zones svd (fun _ => 0) nodes ∧ (∀ n ∈ nodes, isAscii n.name = true) ∧
      NameSorted (shadowMapOf nodes) := by
  unfold scrapeSvd at h
  cases hp : scrapePeripherals lower zones svd [] (fun _ => 0) with
  | none =>
    rw [hp] at h
    cases h
  | some scraped =>
    rw [hp] at h
    dsimp only at h
    obtain ⟨new, hout, hnew⟩ := scrapePeripherals_scraped hp
    obtain rfl : scraped = new := hout
    split at h
    next hascii =>
      obtain rfl := Option.some.inj h
      have hperm := List.mergeSort_perm scraped fun a b =>
        (compare (encodeAscii a.name) (encodeAscii b.name)).isLE
      refine ⟨⟨?_, ?_, ?_⟩, ?_, ?_⟩
      · intro name addr mask type
        simp only [hnew.documented, hperm.mem_iff]
      · intro n hn
        exact hnew.zone n (hperm.mem_iff.mp hn)
      · exact (hperm.map _).nodup_iff.mpr hnew.places
      · intro n hn
        exact List.all_eq_true.mp hascii n (hperm.mem_iff.mp hn)
      · rw [NameSorted, SortedBy, shadowMapOf, List.pairwise_map]
        refine List.pairwise_mergeSort ?_ ?_ _
        · intro a b c hab hbc
          exact Std.TransCmp.isLE_trans hab hbc
        · intro a b
          have hswap : compare a.compiled.name b.compiled.name =
              (compare b.compiled.name a.compiled.name).swap := Std.OrientedCmp.eq_swap
          rw [hswap]
          cases compare b.compiled.name a.compiled.name <;> rfl
    next => cases h

theorem encodeAscii_inj {s t : Text} (hs : isAscii s = true) (ht : isAscii t = true)
    (h : encodeAscii s = encodeAscii t) : s = t := by
  have hbyte : ∀ c : Char, c.toNat < 128 → (UInt8.ofNat c.toNat).toNat = c.toNat := by
    intro c hc
    rw [UInt8.toNat_ofNat']
    omega
  have hback : ∀ u : Text, isAscii u = true → (encodeAscii u).map (fun b => b.toNat) =
      u.map Char.toNat := by
    intro u hu
    rw [encodeAscii, List.map_map]
    refine List.map_congr_left fun c hc => ?_
    exact hbyte c (of_decide_eq_true (List.all_eq_true.mp hu c hc))
  have hnat := (hback s hs).symm.trans ((congrArg _ h).trans (hback t ht))
  exact List.map_injective_iff.mpr (fun c d hcd => Char.toNat_inj.mp hcd) hnat

theorem names_nodup_iff (hascii : ∀ n ∈ nodes, isAscii n.name = true) :
    ((shadowMapOf nodes).map ShadowNode.name).Nodup ↔ (nodes.map ScrapedNode.name).Nodup := by
  have hmap : (shadowMapOf nodes).map ShadowNode.name =
      (nodes.map ScrapedNode.name).map encodeAscii := by
    rw [shadowMapOf, List.map_map, List.map_map]
    rfl
  rw [hmap]
  constructor
  · exact List.Nodup.of_map _
  · intro hnd
    refine hnd.map_on ?_
    intro s hs t ht h
    obtain ⟨a, ha, rfl⟩ := List.mem_map.mp hs
    obtain ⟨b, hb, rfl⟩ := List.mem_map.mp ht
    exact encodeAscii_inj (hascii a ha) (hascii b hb) h

/-- The regions and the numbers fit the fields of an entry. -/
def PlacesFit (nodes : List ScrapedNode) : Prop := ∀ n ∈ nodes, n.r < 128 ∧ n.c < 32768

theorem ofNat_int8_inj {m n : ℕ} (hm : m < 128) (hn : n < 128)
    (h : Int8.ofInt m = Int8.ofInt n) : m = n := by
  have hint := congrArg Int8.toInt h
  rw [Int8.toInt_ofInt_of_le (by omega) (by omega), Int8.toInt_ofInt_of_le (by omega) (by omega)]
    at hint
  omega

theorem ofNat_int16_inj {m n : ℕ} (hm : m < 32768) (hn : n < 32768)
    (h : Int16.ofInt m = Int16.ofInt n) : m = n := by
  have hint := congrArg Int16.toInt h
  rw [Int16.toInt_ofInt_of_le (by omega) (by omega),
    Int16.toInt_ofInt_of_le (by omega) (by omega)] at hint
  omega

theorem zoneMap_int8_inj {z z' : Text} {f f' : ℤ} (h : zoneMap.lookup z = some f)
    (h' : zoneMap.lookup z' = some f') (hf : Int8.ofInt f = Int8.ofInt f') : f = f' := by
  have hrange : ∀ {z : Text} {f : ℤ}, zoneMap.lookup z = some f → -1 ≤ f ∧ f ≤ 4 := by
    intro z f h
    obtain ⟨l₁, l₂, hl, -⟩ := List.lookup_eq_some_iff.mp h
    have hall : ∀ x ∈ zoneMap, -1 ≤ x.2 ∧ x.2 ≤ 4 := by decide
    exact hall (z, f) (by rw [hl]; simp)
  obtain ⟨hl, hh⟩ := hrange h
  obtain ⟨hl', hh'⟩ := hrange h'
  have hint := congrArg Int8.toInt hf
  rwa [Int8.toInt_ofInt_of_le (by omega) (by omega),
    Int8.toInt_ofInt_of_le (by omega) (by omega)] at hint

/-- Two nodes of the catalogue have one coordinate only if they are one node. -/
theorem Scraped.coord_inj {counters : Text → ℕ} (h : Scraped lower zones svd counters nodes)
    (hfit : PlacesFit nodes) {a b : ScrapedNode} (ha : a ∈ nodes) (hb : b ∈ nodes)
    (hcoord : a.compiled.coord = b.compiled.coord) : a = b := by
  obtain ⟨hf, hr, hc⟩ := makeShadowCoord_inj hcoord
  obtain ⟨z, hz, -⟩ := h.zone a ha
  obtain ⟨z', hz', -⟩ := h.zone b hb
  have hplace : a.place = b.place := by
    rw [ScrapedNode.place, ScrapedNode.place, zoneMap_int8_inj hz hz' hf,
      ofNat_int8_inj (hfit a ha).1 (hfit b hb).1 hr,
      ofNat_int16_inj (hfit a ha).2 (hfit b hb).2 hc]
  exact List.inj_on_of_nodup_map h.places ha hb hplace

/-- `atlas verify` reports a clean catalogue exactly if no two things of the register description
come out under one name. -/
theorem atlas_verify_clean_iff (h : scrapeSvd lower zones svd = some nodes) :
    (atlasVerify (shadowMapOf nodes)).clean = true ↔ (nodes.map ScrapedNode.name).Nodup := by
  obtain ⟨-, hascii, hsorted⟩ := scrapeSvd_cases h
  rw [atlasVerify_clean_iff hsorted, names_nodup_iff hascii]

/-- A peripheral with an array of two registers of one field. -/
def pairSvd : List SvdPeripheral :=
  [⟨text "GPIO", 0x60091000, [⟨some (text "OUT%s"), some 4, some 2, none, [⟨text "EN", 1, 1⟩]⟩]⟩]

def pairNodes : List ScrapedNode :=
  [⟨text "agency.GPIO.OUT0", 0x60091004, 0xFFFFFFFF, 1, 0, 0, .hardwareOut⟩,
    ⟨text "agency.GPIO.OUT0.EN", 0x60091004, 2, 1, 0, 1, .hardwareOut⟩,
    ⟨text "agency.GPIO.OUT1", 0x60091008, 0xFFFFFFFF, 1, 0, 2, .hardwareOut⟩,
    ⟨text "agency.GPIO.OUT1.EN", 0x60091008, 2, 1, 0, 3, .hardwareOut⟩]

theorem scrapeSvd_pair : scrapeSvd id (fun _ => some (text "agency")) pairSvd =
    some (pairNodes.mergeSort fun a b =>
      (compare (encodeAscii a.name) (encodeAscii b.name)).isLE) := rfl

theorem pairNodes_distinct {nodes : List ScrapedNode} (h : nodes.Perm pairNodes) :
    (nodes.map ScrapedNode.name).Nodup :=
  (h.map _).nodup_iff.mpr (by decide)

theorem atlas_verify_clean_iff_pair :
    ∃ nodes, scrapeSvd id (fun _ => some (text "agency")) pairSvd = some nodes ∧
      (atlasVerify (shadowMapOf nodes)).clean = true :=
  ⟨_, scrapeSvd_pair, (atlas_verify_clean_iff scrapeSvd_pair).mpr
    (pairNodes_distinct (List.mergeSort_perm _ _))⟩

/-- Once `atlas verify` is clean, the names that resolve are the documented ones, each with its own
address, mask and type, and with a coordinate that is no other's. -/
theorem clean_atlas_resolves (h : scrapeSvd lower zones svd = some nodes)
    (hclean : (atlasVerify (shadowMapOf nodes)).clean = true) :
    (∀ name addr mask type, SvdDocuments lower zones svd name addr mask type →
      ∃ e, shadowResolve (shadowMapOf nodes) (encodeAscii name) = some e ∧
        e.addr = addr % 2 ^ 32 ∧ e.mask = mask % 2 ^ 32 ∧ e.type = type) ∧
    (∀ bytes e, shadowResolve (shadowMapOf nodes) bytes = some e →
      ∃ name addr mask, bytes = encodeAscii name ∧
        SvdDocuments lower zones svd name addr mask e.type ∧
        e.addr = addr % 2 ^ 32 ∧ e.mask = mask % 2 ^ 32) ∧
    (PlacesFit nodes → ∀ bytes bytes' e e', shadowResolve (shadowMapOf nodes) bytes = some e →
      shadowResolve (shadowMapOf nodes) bytes' = some e' → e.coord = e'.coord →
      bytes = bytes') := by
  obtain ⟨hscraped, -, hsorted⟩ := scrapeSvd_cases h
  have hnodup := (atlasVerify_clean_iff hsorted).mp hclean
  have hfound : ∀ bytes e, shadowResolve (shadowMapOf nodes) bytes = some e →
      ∃ n ∈ nodes, encodeAscii n.name = bytes ∧ n.compiled.entry = e := by
    intro bytes e he
    obtain ⟨n, hn, hname, hentry⟩ := (shadowResolve_eq_some_iff hsorted hnodup).mp he
    obtain ⟨m, hm, rfl⟩ := List.mem_map.mp hn
    exact ⟨m, hm, hname, hentry⟩
  refine ⟨?_, ?_, ?_⟩
  · intro name addr mask type hdoc
    obtain ⟨n, hn, rfl, rfl, rfl, rfl⟩ := (hscraped.documented _ _ _ _).mp hdoc
    have hmem : n.compiled ∈ shadowMapOf nodes := List.mem_map_of_mem hn
    exact ⟨_, shadowResolve_self hsorted hnodup hmem, rfl, rfl, rfl⟩
  · intro bytes e he
    obtain ⟨n, hn, rfl, rfl⟩ := hfound bytes e he
    exact ⟨n.name, n.addr, n.mask, rfl,
      (hscraped.documented _ _ _ _).mpr ⟨n, hn, rfl, rfl, rfl, rfl⟩, rfl, rfl⟩
  · intro hfit bytes bytes' e e' he he' hcoord
    obtain ⟨n, hn, rfl, rfl⟩ := hfound bytes e he
    obtain ⟨n', hn', rfl, rfl⟩ := hfound bytes' e' he'
    rw [hscraped.coord_inj hfit hn hn' hcoord]

/-- The field of the second register of the array. -/
theorem clean_atlas_resolves_pair :
    ∃ nodes e, scrapeSvd id (fun _ => some (text "agency")) pairSvd = some nodes ∧
      shadowResolve (shadowMapOf nodes) (encodeAscii (text "agency.GPIO.OUT1.EN")) = some e ∧
      e.addr = 0x60091008 ∧ e.mask = 2 := by
  have hdistinct := pairNodes_distinct (List.mergeSort_perm pairNodes fun a b =>
    (compare (encodeAscii a.name) (encodeAscii b.name)).isLE)
  obtain ⟨-, hascii, hsorted⟩ := scrapeSvd_cases scrapeSvd_pair
  have hclean := (atlasVerify_clean_iff hsorted).mpr ((names_nodup_iff hascii).mpr hdistinct)
  have hdoc : SvdDocuments id (fun _ => some (text "agency")) pairSvd
      (text "agency.GPIO.OUT1.EN") 0x60091008 2 .hardwareOut :=
    ⟨_, List.mem_cons_self, mem_peripheralRows.mp (by decide), rfl⟩
  obtain ⟨e, he, haddr, hmask, -⟩ :=
    (clean_atlas_resolves scrapeSvd_pair hclean).1 _ _ _ _ hdoc
  exact ⟨_, e, scrapeSvd_pair, he, haddr, hmask⟩

end Catalogue

end ReflexOS.Goose

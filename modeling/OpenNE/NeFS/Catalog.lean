import OpenNE.NeFS.Layout

/-!
# NeFS catalogs (`src/FS/OpenNeFS.cc`)

`FindCatalog` follows `NextSibling` from the first slot. `CreateCatalog` looks for a free slot in steps of
`catalogStride`, from its parent's slot on. `RemoveCatalog` only changes the flags of a record.
-/

namespace OpenNE

/-! ### Parent names -/

/-- The greatest index below `n` at which a separator stands. -/
def lastSeparator (name : List UInt8) : Nat → Option Nat
  | 0 => none
  | i + 1 => if name[i]? = some kNeFSSeparator then some i else lastSeparator name i

/-- The name of the parent, cut out in the buffer `parent_name`: everything up to the last separator, the
two last characters not looked at. -/
def parentName (name : CString) : Exec CString :=
  -- the copy leaves no zero at the end of the buffer, or runs off it
  if kNeFSNodeNameLen ≤ name.length then .error .fault
  else
    match lastSeparator name.1 (name.length - 2) with
    | some i => .ok ⟨name.1.take (i + 1), fun h => name.2 (List.mem_of_mem_take h)⟩
    -- the scan runs off the front of the buffer
    | none => .error .fault

/-! ### `FindCatalog` -/

/-- One round of the loop in `FindCatalog`. -/
def findRound (d : Drive) (catalogName : CString) (searchHidden : Bool) (part : NfsSuperBlock) (lba : Lba) :
    Exec (Lba ⊕ Option (NfsCatalogStruct × Lba)) := do
  let temporary := d.catalogAt lba
  let name ← temporary.nameString
  let locked := temporary.Status == kNeFSStatusLocked && !searchHidden
  if catalogName = name ∧ locked = false ∧ temporary.hasCreated = true then
    .ok (.inr (some (temporary, lba)))
  else if temporary.NextSibling < part.StartCatalog then .ok (.inr none)
  else .ok (.inl temporary.NextSibling)

/-- `kNeFSSearchThroughCatalogList`: the record of that name and its address, searched from `start` on. -/
def searchCatalogList (fuel : Nat) (d : Drive) (catalogName : CString) (searchHidden : Bool) (start : Lba) :
    Exec (Option (NfsCatalogStruct × Lba)) :=
  loop (findRound d catalogName searchHidden d.superBlock) fuel start

/-- What `FindCatalog` returns and leaves in `out_lba`. -/
def foundAt : Option (NfsCatalogStruct × Lba) → Option NfsCatalogStruct × Lba
  | some (catalog, lba) => (some catalog, lba)
  | none => (none, 0)

/-- `FindCatalog(catalog_name, out_lba, search_hidden, NO)`. -/
def findCatalog (fuel : Nat) (d : Drive) (catalogName : Option CString) (outLba : Lba) (searchHidden : Bool) :
    Exec (Option NfsCatalogStruct × Lba) :=
  match catalogName with
  | none => .ok (none, outLba)
  | some name =>
    if name.1 = [] then .ok (none, outLba)
    else (searchCatalogList fuel d name searchHidden kNeFSCatalogStartAddress).map foundAt

/-- `FindCatalog(catalog_name, out_lba, search_hidden, YES)`: from behind the parent first, then from the
start of the list. -/
def findCatalogLocal (fuel : Nat) (d : Drive) (catalogName : Option CString) (outLba : Lba)
    (searchHidden : Bool) : Exec (Option NfsCatalogStruct × Lba) :=
  match catalogName with
  | none => .ok (none, outLba)
  | some name =>
    let again (start : Lba) : Exec (Option NfsCatalogStruct × Lba) := do
      match ← searchCatalogList fuel d name searchHidden start with
      | some found => .ok (foundAt (some found))
      | none => (searchCatalogList fuel d name searchHidden d.superBlock.StartCatalog).map foundAt
    if name.1 = [] then .ok (none, outLba)
    else if name = kNeFSRoot then again kNeFSCatalogStartAddress
    else do
      match ← findCatalog fuel d (some (← parentName name)) outLba true with
      | (none, outLba) => .ok (none, outLba)
      | (some parentCatalog, _) => again parentCatalog.NextSibling

/-- `GetCatalog`. -/
def getCatalog (fuel : Nat) (d : Drive) (name : Option CString) : Exec (Option NfsCatalogStruct) :=
  (findCatalog fuel d name 0 true).map Prod.fst

/-! ### `CreateCatalog` -/

/-- The new record, before it has a place. -/
def childCatalog (name : CString) (flags kind : Int32) (outLba : Lba) : NfsCatalogStruct :=
  { NfsCatalogStruct.zero with
    Name := name.field kNeFSNodeNameLen
    NextSibling := outLba
    PrevSibling := outLba
    Kind := kind
    Flags := kNeFSFlagCreated
    CatalogFlags := flags.toUInt32.toUInt16 }

/-- The record as it is written at `startFree`. -/
def NfsCatalogStruct.placedAt (part : NfsSuperBlock) (startFree : Lba) (child : NfsCatalogStruct) :
    NfsCatalogStruct :=
  { child with
    NextSibling := startFree + catalogStride
    DataFork := part.DiskSize - startFree
    ResourceFork := part.DiskSize - startFree }

/-- The superblock after a catalog was created. -/
def NfsSuperBlock.catalogCreated (part : NfsSuperBlock) : NfsSuperBlock :=
  { part with
    FreeSectors := part.FreeSectors - 1
    CatalogCount := part.CatalogCount + 1
    FreeCatalog := part.FreeCatalog - 1 }

/-- The writes of `CreateCatalog`: what was read at `startFree` once more, the new record over it, and the
superblock. -/
def Drive.allocateCatalog (d : Drive) (part : NfsSuperBlock) (temporary child : NfsCatalogStruct)
    (startFree : Lba) : Drive :=
  let d := d.output NfsCatalogStruct.codec startFree temporary
  let d := d.output NfsCatalogStruct.codec startFree (child.placedAt part startFree)
  d.output NfsSuperBlock.codec kNeFSRootCatalogStartAddress d.superBlock.catalogCreated

/-- One round of the loop in `CreateCatalog`. -/
def createRound (d : Drive) (name : CString) (part : NfsSuperBlock) (child : NfsCatalogStruct)
    (s : Lba × NfsCatalogStruct) : Exec (Lba × NfsCatalogStruct ⊕ Drive × Option NfsCatalogStruct) :=
  if s.1 < part.StartCatalog then .ok (.inr (d, none))
  else if s.2.hasCreated = false then .ok (.inr (d.allocateCatalog part s.2 child s.1, some s.2))
  else do
    let temporaryName ← s.2.nameString
    if temporaryName = name then .ok (.inr (d, some s.2))
    else .ok (.inl (s.1 + catalogStride, d.catalogAt (s.1 + catalogStride)))

/-- `CreateCatalog` once the search for a free slot starts at `outLba`. -/
def createCatalogFrom (fuel : Nat) (d : Drive) (name : CString) (flags kind : Int32) (outLba : Lba) :
    Exec (Drive × Option NfsCatalogStruct) :=
  if d.superBlock.FreeCatalog < 1 then .ok (d, none)
  else loop (createRound d name d.superBlock (childCatalog name flags kind outLba)) fuel
    (outLba, d.catalogAt outLba)

/-- `CreateCatalog`. A record that is returned for a new catalog is what its slot held before. -/
def createCatalog (fuel : Nat) (d : Drive) (catalogName : Option CString) (flags kind : Int32) :
    Exec (Drive × Option NfsCatalogStruct) :=
  match catalogName with
  | none => .error .fault
  | some name =>
    match name.1.getLast? with
    -- name[-1]
    | none => .error .fault
    | some last =>
      if kind = kNeFSCatalogKindDir ∧ last ≠ kNeFSSeparator then .ok (d, none)
      else if kind ≠ kNeFSCatalogKindDir ∧ last = kNeFSSeparator then .ok (d, none)
      else do
        let (existing, outLba) ← findCatalog fuel d (some name) 0 true
        if existing.isSome then .ok (d, none)
        else
          let parent ← parentName name
          match ← findCatalog fuel d (some parent) outLba true with
          | (some catalog, outLba) =>
            if catalog.Kind = kNeFSCatalogKindFile then .ok (d, none)
            else createCatalogFrom fuel d name flags kind outLba
          | (none, _) => createCatalogFrom fuel d name flags kind d.superBlock.StartCatalog

/-! ### `RemoveCatalog` -/

/-- The record as `RemoveCatalog` writes it back. -/
def NfsCatalogStruct.removed (catalog : NfsCatalogStruct) : NfsCatalogStruct :=
  { catalog with Flags := catalog.Flags &&& ~~~kNeFSFlagCreated ||| kNeFSFlagDeleted }

/-- The superblock after a catalog was removed. -/
def NfsSuperBlock.catalogRemoved (part : NfsSuperBlock) : NfsSuperBlock :=
  { part with
    CatalogCount := part.CatalogCount - 1
    FreeSectors := part.FreeSectors + 1 }

/-- The writes of `RemoveCatalog`. -/
def Drive.releaseCatalog (d : Drive) (catalog : NfsCatalogStruct) (lba : Lba) : Drive :=
  let d := d.output NfsCatalogStruct.codec lba catalog.removed
  d.output NfsSuperBlock.codec kNeFSRootCatalogStartAddress d.superBlock.catalogRemoved

/-- `RemoveCatalog`. -/
def removeCatalog (fuel : Nat) (d : Drive) (catalogName : Option CString) : Exec (Drive × Bool) :=
  match catalogName with
  | none => .ok (d, false)
  | some name =>
    if name = kNeFSRoot then .ok (d, false)
    else do
      match ← findCatalog fuel d (some name) 0 true with
      -- the flags of a null catalog
      | (none, _) => .error .fault
      | (some catalog, outLba) =>
        if kNeFSCatalogStartAddress ≤ outLba ∨ catalog.hasCreated = true then
          .ok (d.releaseCatalog catalog outLba, true)
        else .ok (d, false)

end OpenNE

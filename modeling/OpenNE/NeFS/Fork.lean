import OpenNE.NeFS.Catalog

/-!
# NeFS forks (`src/FS/OpenNeFS.cc`)

A fork has a header and, behind it in address order but in front of it on the chain, its data. Forks of a
catalog grow downwards from its `DataFork`.
-/

namespace OpenNE

/-- `Equals` of the fork's name and then, when that holds, `Equals` of its catalog's name. -/
def NfsForkStruct.isNamed (fork : NfsForkStruct) (forkName catalogName : Exec CString) : Exec Bool := do
  if (← fork.nameString) = (← forkName) then
    let owner ← fork.catalogString
    .ok (decide (owner = (← catalogName)))
  else .ok false

/-! ### `CreateFork` -/

/-- The place `CreateFork` gives the fork whose header is at `lba`. -/
def NfsForkStruct.placedAt (lba lbaPrev : Lba) (fork : NfsForkStruct) : NfsForkStruct :=
  { fork with
    Flags := fork.Flags ||| kNeFSFlagCreated.toUInt32.toInt32
    DataOffset := lba - UInt64.ofNat forkSize
    PreviousSibling := lbaPrev
    NextSibling := lba - UInt64.ofNat forkSize - fork.DataSize }

/-- The state of the loop in `CreateFork`. -/
structure ForkScan where
  lba : Lba
  lbaPrev : Lba
  prevFork : NfsForkStruct

/-- One round of the loop in `CreateFork`; it leaves with the drive and the last state. -/
def createForkRound (d : Drive) (fork : NfsForkStruct) (s : ForkScan) : Exec (ForkScan ⊕ Drive × ForkScan) :=
  if d.fPacketGood = false then .ok (.inr (d, s))
  else
    let cur := d.forkAt s.lba
    if cur.hasCreated = true then do
      if (← cur.isNamed fork.nameString fork.catalogString) = true then .ok (.inr (d, s))
      else .ok (.inl ⟨cur.NextSibling, s.lba, cur⟩)
    else if kNeFSCatalogStartAddress ≤ s.lba then
      .ok (.inr (d.output NfsForkStruct.codec s.lbaPrev { s.prevFork with NextSibling := s.lba }, s))
    else .ok (.inr (d, s))

/-- `MUST_TRY` on a condition that fails: the runtime check of a debug build, `return NO` of the others. -/
def mustTryFailed (debug : Bool) (d : Drive) (fork : NfsForkStruct) : Exec (Drive × NfsForkStruct × Bool) :=
  if debug = true then .error .panic else .ok (d, fork, false)

/-- `CreateFork`. `stale` is what the variable `prev_fork` holds before it is assigned. -/
def createFork (debug : Bool) (fuel : Nat) (stale : NfsForkStruct) (d : Drive) (fork : NfsForkStruct) :
    Exec (Drive × NfsForkStruct × Bool) :=
  if fork.ForkName.1.head? ≠ some 0 ∧ fork.CatalogName.1.head? ≠ some 0 ∧ 0 < fork.DataSize then do
    match ← getCatalog fuel d (some (← fork.catalogString)) with
    | none => mustTryFailed debug d fork
    | some catalog =>
      if catalog.DataFork < kNeFSCatalogStartAddress then do
        let (d, s) ← loop (createForkRound d fork) fuel ⟨catalog.DataFork, catalog.DataFork, stale⟩
        let fork := fork.placedAt s.lba s.lbaPrev
        .ok (d.output NfsForkStruct.codec s.lba fork, fork, true)
      else mustTryFailed debug d fork
  else .ok (d, fork, false)

/-! ### `WriteCatalog` -/

/-- The fork exists and has these names. -/
def NfsForkStruct.isWanted (fork : NfsForkStruct) (forkName catalogName : Exec CString) : Exec Bool :=
  if fork.hasCreated = true then fork.isNamed forkName catalogName else .ok false

/-- One round of the loop in `WriteCatalog`. -/
def writeRound (d : Drive) (catalogName : CString) (data : List UInt8) (forkName : Option CString)
    (startFork : Lba) : Exec (Lba ⊕ Drive × Bool) :=
  if startFork < kNeFSCatalogStartAddress then .ok (.inr (d, false))
  else do
    let fork := d.forkAt startFork
    if (← fork.isWanted (deref forkName) (.ok catalogName)) = true ∧ fork.DataSize.toNat = data.length then
      .ok (.inr (d.outputBytes fork.DataOffset data, true))
    else .ok (.inl fork.NextSibling)

/-- `WriteCatalog` of the bytes `data`. -/
def writeCatalog (fuel : Nat) (d : Drive) (catalogName : Option CString) (isRsrcFork : Bool)
    (data : List UInt8) (forkName : Option CString) : Exec (Drive × Bool) :=
  if data.length < 1 then .ok (d, false)
  else do
    match ← getCatalog fuel d catalogName with
    | none => .ok (d, false)
    | some catalog =>
      let startFork := if isRsrcFork then catalog.ResourceFork else catalog.DataFork
      loop (writeRound d (← deref catalogName) data forkName) fuel startFork

/-! ### `ReadCatalog` -/

/-- One round of the loop in `ReadCatalog`, on `dataForkLba` and `fs_fork_data`. -/
def readRound (d : Drive) (catalog : NfsCatalogStruct) (forkName : Option CString)
    (s : Lba × Option NfsForkStruct) : Exec (Lba × Option NfsForkStruct ⊕ Lba × Option NfsForkStruct) :=
  if s.1 ≤ kNeFSCatalogStartAddress then .ok (.inr s)
  else do
    let fork := d.forkAt s.1
    if (← fork.isNamed (deref forkName) catalog.nameString) = true then .ok (.inr (s.1, some fork))
    else .ok (.inl (fork.NextSibling, some fork))

/-- `ReadCatalog`: the bytes of the buffer it returns, which is that of the fork record. -/
def readCatalog (fuel : Nat) (d : Drive) (catalog : Option NfsCatalogStruct) (isRsrcFork : Bool)
    (forkName : Option CString) : Exec (Option (List UInt8)) :=
  match catalog with
  | none => .ok none
  | some catalog => do
    let dataForkLba := if isRsrcFork then catalog.ResourceFork else catalog.DataFork
    let (lba, fork) ← loop (readRound d catalog forkName) fuel (dataForkLba, none)
    if lba < kNeFSCatalogStartAddress then .ok none
    else .ok (fork.map NfsForkStruct.codec.enc)

end OpenNE

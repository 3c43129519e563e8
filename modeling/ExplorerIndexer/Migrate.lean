import ExplorerIndexer.Writer

/-!
# Migration

`migrate` runs on every start. It drops a file of another schema version, or one with tables of
v1, creates what is missing and checks the chain id. The drops and creates are not one transaction:
each statement takes effect on its own, and the process may be killed between any two.

## Main definitions

* `migrate` — the statements, in their order
* `NeedsRebuild` — the condition under which the tables are dropped
* `Rebuildable` — the files from which an open can only end in an empty index
* `Intact` — the files of this schema version that belong to a chain
* `File.Vacant` — the files without a row of the index, as an open leaves a fresh one when cut

## Main results

* `migrate_rebuildable` — from a rebuildable file, a returning migration leaves the empty index,
  and a killed one leaves a rebuildable file
* `migrate_intact` — an intact file is never changed, and opens under its own chain id only
-/

namespace ExplorerIndexer

open Script (Triple)

/-- The schema version this build writes and requires. -/
def SCHEMA_VERSION : String := "3"

/-- The tables `migrate` names. -/
inductive TableName where
  | metadata
  | addressTxs
  | txTypes
  | txTypeCounts
  | consensusBlocks
  | tokenTransfers
  | tokens
  | blocks
  | transactions
  deriving DecidableEq, Repr

/-- The indexes on `token_transfers`, by their leading column. -/
inductive IndexName where
  | token
  | fromAddr
  | toAddr
  deriving DecidableEq, Repr

/-- A statement of the DDL: create a table or an index if it does not exist. -/
inductive Create where
  | table (name : TableName)
  | index (name : IndexName)
  deriving DecidableEq, Repr

/-- Whether `sqlite_master` lists a table. -/
def File.tableExists (f : File) : TableName → Bool
  | .metadata => f.metadata.isSome
  | .addressTxs => f.addressTxs.isSome
  | .txTypes => f.txTypes.isSome
  | .txTypeCounts => f.txTypeCounts.isSome
  | .consensusBlocks => f.consensusBlocks.isSome
  | .tokenTransfers => f.tokenTransfers.isSome
  | .tokens => f.tokens.isSome
  | .blocks => f.blocks.isSome
  | .transactions => f.transactions.isSome

/-- `DROP TABLE IF EXISTS`. -/
def File.drop (f : File) : TableName → File
  | .metadata => { f with metadata := none }
  | .addressTxs => { f with addressTxs := none }
  | .txTypes => { f with txTypes := none }
  | .txTypeCounts => { f with txTypeCounts := none }
  | .consensusBlocks => { f with consensusBlocks := none }
  | .tokenTransfers => { f with tokenTransfers := none }
  | .tokens => { f with tokens := none }
  | .blocks => { f with blocks := none }
  | .transactions => { f with transactions := none }

/-- A table of the v3 DDL, or the one that exists already. -/
def orCreate {ρ κ : Type} {key : ρ → κ} : Option (Stored (Table key)) → Stored (Table key)
  | some t => t
  | none => .current .empty

/-- The columns of an index. -/
def IndexName.columns : IndexName → List String
  | .token => ["token", "block_number", "tx_index", "log_index"]
  | .fromAddr => ["from_addr", "block_number", "tx_index", "log_index"]
  | .toAddr => ["to_addr", "block_number", "tx_index", "log_index"]

/-- Add an index. -/
def TransferTable.addIndex (t : TransferTable) : IndexName → TransferTable
  | .token => { t with idxToken := true }
  | .fromAddr => { t with idxFrom := true }
  | .toAddr => { t with idxTo := true }

/-- The first column of an index that the table lacks. -/
def TransferTable.missingColumn (t : TransferTable) (name : IndexName) : Option String :=
  match t.table with
  | .current _ => none
  | .outdated o => name.columns.find? fun column => !o.columns.contains column

/-- One statement of the DDL. The DDL names no table of v1. An index needs its table, with its four
columns. -/
def File.create (f : File) : Create → Except Error File
  | .table .metadata => .ok { f with metadata := some (f.metadata.getD .empty) }
  | .table .addressTxs => .ok { f with addressTxs := some (orCreate f.addressTxs) }
  | .table .txTypes => .ok { f with txTypes := some (orCreate f.txTypes) }
  | .table .txTypeCounts => .ok { f with txTypeCounts := some (orCreate f.txTypeCounts) }
  | .table .consensusBlocks => .ok { f with consensusBlocks := some (orCreate f.consensusBlocks) }
  | .table .tokenTransfers =>
    .ok { f with
      tokenTransfers := some (f.tokenTransfers.getD ⟨.current .empty, false, false, false⟩) }
  | .table .tokens => .ok { f with tokens := some (orCreate f.tokens) }
  | .table .blocks | .table .transactions => .ok f
  | .index name =>
    match f.tokenTransfers with
    | none => .error (.noSuchTable "token_transfers")
    | some t =>
      match t.missingColumn name with
      | none => .ok { f with tokenTransfers := some (t.addIndex name) }
      | some column => .error (.noSuchColumn column)

/-- The drop batch. -/
def dropOrder : List TableName :=
  [.addressTxs, .txTypes, .txTypeCounts, .consensusBlocks, .tokenTransfers, .tokens, .metadata,
    .blocks, .transactions]

/-- The DDL. -/
def DDL : List Create :=
  [.table .metadata, .table .addressTxs, .table .txTypes, .table .txTypeCounts,
    .table .consensusBlocks, .table .tokenTransfers, .index .token, .index .fromAddr,
    .index .toAddr, .table .tokens]

/-- `table_exists`. -/
def tableExists (name : TableName) : Script File Error Bool :=
  Script.query fun f => .ok (f.tableExists name)

/-- `read_meta` on a file. -/
def File.readMeta (f : File) (key : String) : Except Error (Option String) :=
  match f.metadata with
  | none => .error (.noSuchTable "meta")
  | some metadata => .ok (ExplorerIndexer.readMeta metadata key)

/-- A write to `meta`. -/
def File.updateMeta (f : File) (g : Table MetaRow.key → Table MetaRow.key) :
    Except Error (PUnit × File) :=
  match f.metadata with
  | none => .error (.noSuchTable "meta")
  | some metadata => .ok ((), { f with metadata := some (g metadata) })

/-- The chain-id guard: record the id, or compare it with the stored one. -/
def checkChainId (chainId : UInt64) : Script File Error PUnit := do
  match ← Script.query (File.readMeta · "chain_id") with
  | none => Script.statement (File.updateMeta · (·.replace ⟨"chain_id", chainId.toNat.repr⟩))
  | some stored =>
    match Numeral.parseNat (2 ^ 64) stored with
    | none => Script.fail (.invalidChainId stored)
    | some storedId =>
      if storedId ≠ chainId.toNat then Script.fail (.chainMismatch storedId chainId.toNat)
      else return ()

/-- The statements after the drops: create what is missing, write the version, check the chain. -/
def build (chainId : UInt64) : Script File Error PUnit := do
  Script.batch (fun statement f => f.create statement) DDL
  Script.statement (File.updateMeta · (·.insertIgnore ⟨"schema_version", SCHEMA_VERSION⟩))
  checkChainId chainId

/-- `table_exists(blocks) || table_exists(transactions)`. -/
def v1TablesExist : Script File Error Bool := do
  let blocksExists ← tableExists .blocks
  if blocksExists then return true else tableExists .transactions

/-- The stored schema version, when there is a `meta`. -/
def storedVersion (metaExists : Bool) : Script File Error (Option String) :=
  if metaExists then Script.query (File.readMeta · "schema_version") else pure none

/-- Create or rebuild the schema and enforce the chain-id guard. -/
def migrate (chainId : UInt64) : Script File Error PUnit := do
  let metaExists ← tableExists .metadata
  let v1Tables ← v1TablesExist
  let version ← storedVersion metaExists
  if (metaExists && version != some SCHEMA_VERSION) || v1Tables then
    Script.batch (fun name f => .ok (f.drop name)) dropOrder
    build chainId
  else
    build chainId

/-! ### Files by what an open makes of them -/

/-- The condition of the drops: a `meta` of another version, or a table of v1. -/
def NeedsRebuild (f : File) : Prop :=
  (∃ m, f.metadata = some m ∧ readMeta m "schema_version" ≠ some SCHEMA_VERSION) ∨
    f.blocks.isSome ∨ f.transactions.isSome

/-- The v3 tables without rows, over a given `meta`. -/
def emptyDb (metadata : Table MetaRow.key) : Db :=
  ⟨metadata, .empty, .empty, .empty, .empty, .empty, .empty⟩

/-- A `meta` that holds the version only. -/
def versionMeta : Table MetaRow.key := Table.empty.insertIgnore ⟨"schema_version", SCHEMA_VERSION⟩

/-- The index of a chain before its first block. -/
def freshDb (chainId : UInt64) : Db :=
  emptyDb (versionMeta.replace ⟨"chain_id", chainId.toNat.repr⟩)

/-- A file whose tables will be dropped, or that has no rows and no chain yet. -/
def Rebuildable (f : File) : Prop :=
  NeedsRebuild f ∨ f = File.empty ∨ f = (emptyDb versionMeta).toFile

/-- A file of this version that belongs to a chain: what successful opens and block writes
leave. -/
def Intact (chainId : UInt64) (f : File) : Prop :=
  ∃ db : Db, f = db.toFile ∧ readMeta db.metadata "schema_version" = some SCHEMA_VERSION ∧
    readMeta db.metadata "chain_id" = some chainId.toNat.repr

theorem Intact.toDb {chainId : UInt64} {f : File} (h : Intact chainId f) :
    ∃ db, f.toDb = some db := by
  obtain ⟨db, rfl, -⟩ := h
  exact ⟨db, db.toDb_toFile⟩

theorem intact_freshDb (chainId : UInt64) : Intact chainId (freshDb chainId).toFile := by
  refine ⟨freshDb chainId, rfl, ?_, ?_⟩
  · rw [freshDb, emptyDb, readMeta_replace, if_neg (by simp)]
    decide
  · rw [freshDb, emptyDb, readMeta_replace, if_pos rfl]

theorem cursor_freshDb (chainId : UInt64) : (freshDb chainId).cursor = none := by
  rw [Db.cursor, freshDb, emptyDb, readMeta_replace, if_neg (by simp)]
  decide

/-- A stored chain id reads back. -/
theorem parseNat_chainId (chainId : UInt64) :
    Numeral.parseNat (2 ^ 64) chainId.toNat.repr = some chainId.toNat :=
  Numeral.parseNat_repr chainId.toNat_lt

theorem Intact.chainId_unique {id id' : UInt64} {f : File} (h : Intact id f) (h' : Intact id' f) :
    id = id' := by
  obtain ⟨db, rfl, -, hid⟩ := h
  obtain ⟨db', hdb', -, hid'⟩ := h'
  rw [← Db.toFile_injective hdb', hid] at hid'
  have hparse := parseNat_chainId id
  rw [Option.some.inj hid', parseNat_chainId] at hparse
  exact (UInt64.toNat_inj.mp (Option.some.inj hparse)).symm

/-! ### The tail: create, write the version, check the chain -/

section Build

variable (chainId : UInt64)

theorem not_intact_of_needsRebuild {f : File} (h : NeedsRebuild f) : ¬ Intact chainId f := by
  rintro ⟨db, rfl, hversion, -⟩
  rcases h with ⟨m, hm, hne⟩ | h | h
  · cases hm
    exact hne hversion
  · cases h
  · cases h

theorem not_intact_of_rebuildable {f : File} (h : Rebuildable f) : ¬ Intact chainId f := by
  rcases h with h | rfl | rfl
  · exact not_intact_of_needsRebuild chainId h
  · rintro ⟨db, hdb, -⟩
    cases hdb
  · rintro ⟨db, hdb, -, hid⟩
    rw [← Db.toFile_injective hdb] at hid
    exact absurd hid (by simp [emptyDb, readMeta, versionMeta, Table.find?_insertIgnore])

theorem createAll_toFile (db : Db) :
    DDL.foldlM (fun f statement => f.create statement) db.toFile = .ok db.toFile := rfl

theorem metadata_create {f f' : File} {statement : Create} {m : Table MetaRow.key}
    (hm : f.metadata = some m) (h : f.create statement = .ok f') : f'.metadata = some m := by
  cases statement with
  | table name => cases name <;> cases h <;> simp [hm]
  | index name =>
    simp only [File.create] at h
    split at h
    · cases h
    · split at h <;> cases h
      exact hm

/-- A database whose tables exist is not touched by the DDL. -/
theorem ddl_toFile (db : Db) {E : Error → File → Prop} {C : File → Prop} (hC : C db.toFile) :
    Script.Triple (· = db.toFile) (Script.batch (fun statement f => f.create statement) DDL)
      (fun _ f => f = db.toFile) E C := by
  refine Triple.batch (J := (· = db.toFile)) (createAll_toFile db) rfl ?_ fun f hf => hf ▸ hC
  rintro statement hmem f f' rfl h
  simp only [DDL, List.mem_cons, List.not_mem_nil, or_false] at hmem
  rcases hmem with rfl | rfl | rfl | rfl | rfl | rfl | rfl | rfl | rfl | rfl <;> cases h <;> rfl

theorem checkChainId_unclaimed :
    Triple (· = (emptyDb versionMeta).toFile) (checkChainId chainId)
      (fun _ f => f = (freshDb chainId).toFile) (fun _ _ => False) Rebuildable := by
  have hC : ∀ f, f = (emptyDb versionMeta).toFile → Rebuildable f := fun f h => Or.inr (Or.inr h)
  refine Triple.bind (Q := fun stored f => f = (emptyDb versionMeta).toFile ∧ stored = none)
    (Triple.query ?_ hC) fun stored => ?_
  · rintro _ rfl
    exact ⟨rfl, by decide⟩
  · cases stored with
    | none =>
      refine Triple.statement ?_ fun f hf => hC f hf.1
      rintro _ ⟨rfl, -⟩
      rfl
    | some stored => exact fun s hs => absurd hs.2 (by simp)

theorem checkChainId_intact {stored : UInt64} {f : File} (h : Intact stored f) :
    Triple (· = f) (checkChainId chainId) (fun _ f' => f' = f ∧ chainId = stored)
      (fun e f' => f' = f ∧ chainId ≠ stored ∧ e = .chainMismatch stored.toNat chainId.toNat)
      (· = f) := by
  obtain ⟨db, rfl, -, hid⟩ := h
  refine Triple.bind (Q := fun text f' => f' = db.toFile ∧ text = some stored.toNat.repr)
    (Triple.query ?_ fun _ hf => hf) fun text => ?_
  · rintro _ rfl
    exact ⟨rfl, hid⟩
  · refine Triple.of_forall ?_
    rintro _ ⟨rfl, rfl⟩
    simp only [parseNat_chainId]
    split
    · next hne =>
      refine Triple.fail _ ?_
      rintro _ rfl
      exact ⟨rfl, fun hc => hne (by rw [hc]), rfl⟩
    · next heq =>
      refine Triple.pure _ ?_
      rintro _ rfl
      exact ⟨rfl, UInt64.toNat_inj.mp (not_not.mp heq).symm⟩

theorem build_unclaimed :
    Triple (· = (emptyDb versionMeta).toFile) (build chainId)
      (fun _ f => f = (freshDb chainId).toFile) (fun _ _ => False) Rebuildable := by
  have hC : ∀ f, f = (emptyDb versionMeta).toFile → Rebuildable f := fun f h => Or.inr (Or.inr h)
  refine Triple.bind (ddl_toFile _ (hC _ rfl)) fun _ => Triple.bind
    (Q := fun _ f => f = (emptyDb versionMeta).toFile) (Triple.statement ?_ hC) fun _ =>
    checkChainId_unclaimed chainId
  rintro _ rfl
  rfl

/-- From the empty file, `meta` is created first: whatever follows is killed with a `meta` that has
no version. -/
theorem build_empty :
    Triple (· = File.empty) (build chainId) (fun _ f => f = (freshDb chainId).toFile)
      (fun _ _ => False) Rebuildable := by
  have hversionless : ∀ f : File, f.metadata = some .empty → Rebuildable f := fun f hf =>
    Or.inl (Or.inl ⟨.empty, hf, by decide⟩)
  have hmeta : Triple (· = File.empty)
      (Script.batch (fun statement f => f.create statement) [.table .metadata])
      (fun _ f => f = { File.empty with metadata := some .empty }) (fun _ _ => False)
      Rebuildable := by
    refine Triple.batch (J := fun f => f = File.empty ∨ f.metadata = some .empty) rfl (Or.inl rfl)
      ?_ ?_
    · rintro statement hmem f f' (rfl | hf) h
      · cases List.mem_singleton.mp hmem
        cases h
        exact Or.inr rfl
      · exact Or.inr (metadata_create hf h)
    · rintro f (hf | hf)
      · exact Or.inr (Or.inl hf)
      · exact hversionless f hf
  have hrest : Triple (· = { File.empty with metadata := some .empty })
      (Script.batch (fun statement f => f.create statement) (DDL.drop 1))
      (fun _ f => f = (emptyDb .empty).toFile) (fun _ _ => False) Rebuildable :=
    Triple.batch (J := fun f => f.metadata = some .empty) rfl rfl
      (fun _ _ _ _ hf h => metadata_create hf h) hversionless
  refine Triple.bind (Triple.batch_append hmeta hrest) fun _ => Triple.bind
    (Q := fun _ f => f = (emptyDb versionMeta).toFile) (Triple.statement ?_ ?_) fun _ =>
    checkChainId_unclaimed chainId
  · rintro _ rfl
    rfl
  · rintro _ rfl
    exact hversionless _ rfl

theorem build_intact {stored : UInt64} {f : File} (h : Intact stored f) :
    Triple (· = f) (build chainId) (fun _ f' => f' = f ∧ chainId = stored)
      (fun e f' => f' = f ∧ chainId ≠ stored ∧ e = .chainMismatch stored.toNat chainId.toNat)
      (· = f) := by
  have hintact := h
  obtain ⟨db, rfl, hversion, -⟩ := h
  refine Triple.bind (ddl_toFile db rfl) fun _ => Triple.bind (Q := fun _ f => f = db.toFile)
    (Triple.statement ?_ fun _ hf => hf) fun _ => checkChainId_intact chainId hintact
  rintro _ rfl
  obtain ⟨row, hrow, -⟩ := Option.map_eq_some_iff.mp hversion
  have hsame : db.metadata.insertIgnore ⟨"schema_version", SCHEMA_VERSION⟩ = db.metadata :=
    Table.insertIgnore_of_some hrow
  simp only [File.updateMeta, Db.toFile, hsame]

/-! ### The drops -/

/-- No table of this program is left but `meta` and the tables of v1. -/
def DerivedDropped (f : File) : Prop :=
  f.addressTxs = none ∧ f.txTypes = none ∧ f.txTypeCounts = none ∧ f.consensusBlocks = none ∧
    f.tokenTransfers = none ∧ f.tokens = none

theorem rebuildable_of_dropped {f : File} (h : DerivedDropped f) (hm : f.metadata = none) :
    Rebuildable f := by
  obtain ⟨metadata, addressTxs, txTypes, txTypeCounts, consensusBlocks, tokenTransfers, tokens,
    blocks, transactions⟩ := f
  obtain ⟨rfl, rfl, rfl, rfl, rfl, rfl⟩ := h
  obtain rfl := hm
  cases blocks with
  | some _ => exact Or.inl (Or.inr (Or.inl rfl))
  | none =>
    cases transactions with
    | some _ => exact Or.inl (Or.inr (Or.inr rfl))
    | none => exact Or.inr (Or.inl rfl)

/-- A killed drop batch leaves a file the next open drops again: until `meta` goes, the condition
that started the drops still holds; after it, only tables of v1 can be left. -/
theorem drops_spec {f : File} (h : NeedsRebuild f) :
    Triple (· = f) (Script.batch (fun name f => (.ok (f.drop name) : Except Error File)) dropOrder)
      (fun _ f' => f' = File.empty) (fun _ _ => False) Rebuildable := by
  have hderived : Triple (· = f)
      (Script.batch (fun name f => (.ok (f.drop name) : Except Error File)) (dropOrder.take 6))
      (fun _ f' => f' = ⟨f.metadata, none, none, none, none, none, none, f.blocks, f.transactions⟩)
      (fun _ _ => False) Rebuildable := by
    refine Triple.batch (J := fun f' => f'.metadata = f.metadata ∧ f'.blocks = f.blocks ∧
      f'.transactions = f.transactions) rfl ⟨rfl, rfl, rfl⟩ ?_ ?_
    · rintro name hmem s s' hs hdrop
      cases hdrop
      simp only [dropOrder, List.take, List.mem_cons, List.not_mem_nil, or_false] at hmem
      rcases hmem with rfl | rfl | rfl | rfl | rfl | rfl <;> exact hs
    · rintro s ⟨hm, hb, ht⟩
      refine Or.inl ?_
      rw [NeedsRebuild, hm, hb, ht]
      exact h
  have hmeta : Triple
      (· = ⟨f.metadata, none, none, none, none, none, none, f.blocks, f.transactions⟩)
      (Script.batch (fun name f => (.ok (f.drop name) : Except Error File)) [.metadata])
      (fun _ f' => f' = ⟨none, none, none, none, none, none, none, f.blocks, f.transactions⟩)
      (fun _ _ => False) Rebuildable := by
    refine Triple.batch (J := fun f' => DerivedDropped f' ∧ f'.blocks = f.blocks ∧
      f'.transactions = f.transactions ∧ (f'.metadata = f.metadata ∨ f'.metadata = none)) rfl
      ⟨⟨rfl, rfl, rfl, rfl, rfl, rfl⟩, rfl, rfl, Or.inl rfl⟩ ?_ ?_
    · rintro name hmem s s' ⟨hd, hb, ht, -⟩ hdrop
      cases hdrop
      cases List.mem_singleton.mp hmem
      exact ⟨hd, hb, ht, Or.inr rfl⟩
    · rintro s ⟨hd, hb, ht, hm | hm⟩
      · refine Or.inl ?_
        rw [NeedsRebuild, hm, hb, ht]
        exact h
      · exact rebuildable_of_dropped hd hm
  have hv1 : Triple
      (· = ⟨none, none, none, none, none, none, none, f.blocks, f.transactions⟩)
      (Script.batch (fun name f => (.ok (f.drop name) : Except Error File))
        [.blocks, .transactions])
      (fun _ f' => f' = File.empty) (fun _ _ => False) Rebuildable := by
    refine Triple.batch (J := fun f' => DerivedDropped f' ∧ f'.metadata = none) rfl
      ⟨⟨rfl, rfl, rfl, rfl, rfl, rfl⟩, rfl⟩ ?_ fun s hs => rebuildable_of_dropped hs.1 hs.2
    rintro name hmem s s' hs hdrop
    cases hdrop
    simp only [List.mem_cons, List.not_mem_nil, or_false] at hmem
    rcases hmem with rfl | rfl <;> exact hs
  exact Triple.batch_append hderived (Triple.batch_append hmeta hv1)

/-! ### The whole migration -/

theorem tableExists_spec (name : TableName) (f : File) {E : Error → File → Prop}
    {C : File → Prop} (hC : C f) : Triple (· = f) (tableExists name)
      (fun b f' => f' = f ∧ b = f.tableExists name) E C := by
  refine Triple.query ?_ fun f' hf => hf ▸ hC
  rintro _ rfl
  exact ⟨rfl, rfl⟩

theorem v1TablesExist_spec (f : File) {E : Error → File → Prop} {C : File → Prop} (hC : C f) :
    Triple (· = f) v1TablesExist
      (fun b f' => f' = f ∧ b = (f.blocks.isSome || f.transactions.isSome)) E C := by
  refine Triple.bind (tableExists_spec .blocks f hC) fun blocksExists => Triple.of_forall ?_
  rintro f ⟨rfl, rfl⟩
  split
  · next hb => exact Triple.pure _ fun f' hf => ⟨hf, by simp_all [File.tableExists]⟩
  · next hb =>
    exact (tableExists_spec .transactions f hC).conseq (fun _ h => h)
      (fun b f' h => ⟨h.1, by simp_all [File.tableExists]⟩) (fun _ _ h => h) fun _ h => h

theorem storedVersion_spec (f : File) {E : Error → File → Prop} {C : File → Prop} (hC : C f) :
    Triple (· = f) (storedVersion (f.tableExists .metadata))
      (fun version f' => f' = f ∧ version = f.metadata.bind (readMeta · "schema_version")) E C := by
  rw [storedVersion]
  split
  · next hm =>
    obtain ⟨m, hm⟩ := Option.isSome_iff_exists.mp hm
    refine Triple.query ?_ fun f' hf => hf ▸ hC
    rintro f rfl
    simp only [File.readMeta, hm]
    exact ⟨trivial, rfl⟩
  · next hm =>
    have hm : f.metadata = none := by simpa [File.tableExists] using hm
    exact Triple.pure _ fun f' hf => ⟨hf, by rw [hm]; rfl⟩

/-- The reads that `migrate` starts with decide `NeedsRebuild`. -/
theorem migrate_spec {f : File} {Q : PUnit → File → Prop} {E : Error → File → Prop}
    {C : File → Prop} (hC : C f)
    (hdrop : NeedsRebuild f → Triple (· = f)
      (Script.batch (fun name f => .ok (f.drop name)) dropOrder >>= fun _ => build chainId) Q E C)
    (hkeep : ¬ NeedsRebuild f → Triple (· = f) (build chainId) Q E C) :
    Triple (· = f) (migrate chainId) Q E C := by
  refine Triple.bind (tableExists_spec .metadata f hC) fun metaExists => Triple.of_forall ?_
  rintro f ⟨rfl, rfl⟩
  refine Triple.bind (v1TablesExist_spec f hC) fun v1Tables => Triple.of_forall ?_
  rintro f ⟨rfl, rfl⟩
  refine Triple.bind (storedVersion_spec f hC) fun version => Triple.of_forall ?_
  rintro f ⟨rfl, rfl⟩
  have hcond : ((f.tableExists .metadata &&
      f.metadata.bind (readMeta · "schema_version") != some SCHEMA_VERSION) ||
        (f.blocks.isSome || f.transactions.isSome)) = true ↔ NeedsRebuild f := by
    rw [NeedsRebuild, File.tableExists]
    cases f.metadata <;> simp
  split
  · next h => exact hdrop (hcond.mp h)
  · next h => exact hkeep fun hc => h (hcond.mpr hc)

/-- **From a rebuildable file there is one way to return, the empty index of the chain, and a
killed migration can be taken up again.** -/
theorem migrate_rebuildable {f : File} (h : Rebuildable f) :
    Triple (· = f) (migrate chainId) (fun _ f' => f' = (freshDb chainId).toFile)
      (fun _ _ => False) Rebuildable := by
  refine migrate_spec chainId h (fun hn => Triple.bind (drops_spec hn) fun _ =>
    build_empty chainId) fun hn => ?_
  rcases h with h | rfl | rfl
  · exact absurd h hn
  · exact build_empty chainId
  · exact build_unclaimed chainId

/-- **An intact file is never changed**, and a migration that returns ran under its chain id. -/
theorem migrate_intact {stored : UInt64} {f : File} (h : Intact stored f) :
    Triple (· = f) (migrate chainId) (fun _ f' => f' = f ∧ chainId = stored)
      (fun e f' => f' = f ∧ chainId ≠ stored ∧ e = .chainMismatch stored.toNat chainId.toNat)
      (· = f) :=
  migrate_spec chainId rfl (fun hn => absurd h (not_intact_of_needsRebuild stored hn))
    fun _ => build_intact chainId h

/-- A migration that returns leaves a file of its chain: the one it found, or the empty index. -/
theorem migrate_returns {f : File} (h : Rebuildable f ∨ ∃ stored, Intact stored f)
    {budget : Option ℕ} {s : Session File} (hrun : migrate chainId ⟨f, budget⟩ = (.ok (), s)) :
    Intact chainId s.store ∧
      (s.store = f ∨ Rebuildable f ∧ s.store = (freshDb chainId).toFile) := by
  rcases h with h | ⟨stored, h⟩
  · have hs := (migrate_rebuildable chainId h).ok rfl hrun
    exact ⟨hs ▸ intact_freshDb chainId, Or.inr ⟨h, hs⟩⟩
  · obtain ⟨hs, rfl⟩ := (migrate_intact chainId h).ok rfl hrun
    exact ⟨hs ▸ h, Or.inl hs⟩

/-- A migration that does not return keeps an intact file, and a rebuildable one rebuildable. -/
theorem migrate_stops {f : File} (h : Rebuildable f ∨ ∃ stored, Intact stored f)
    {budget : Option ℕ} {stop : Stop Error} {s : Session File}
    (hrun : migrate chainId ⟨f, budget⟩ = (.error stop, s)) :
    s.store = f ∨ Rebuildable f ∧ Rebuildable s.store := by
  rcases h with h | ⟨stored, h⟩
  · cases stop with
    | failed e => exact ((migrate_rebuildable chainId h).failed rfl hrun).elim
    | cut => exact Or.inr ⟨h, ((migrate_rebuildable chainId h).cut rfl hrun)⟩
  · cases stop with
    | failed e => exact Or.inl ((migrate_intact chainId h).failed rfl hrun).1
    | cut => exact Or.inl ((migrate_intact chainId h).cut rfl hrun)

/-- What the drops, the DDL and the changes of `meta` that keep `last_indexed` preserve, a migration
preserves, wherever it stops. -/
theorem migrate_preserves {K : File → Prop} (hdrop : ∀ f name, K f → K (f.drop name))
    (hcreate : ∀ f statement f', K f → f.create statement = .ok f' → K f')
    (hmeta : ∀ f m m', K f → f.metadata = some m →
      readMeta m' "last_indexed" = readMeta m "last_indexed" →
      K { f with metadata := some m' }) :
    Triple K (migrate chainId) (fun _ => K) (fun _ => K) K := by
  have hread : ∀ {α : Type} (g : File → Except Error α),
      Triple K (Script.query g) (fun _ => K) (fun _ => K) K := fun g =>
    Triple.query (fun f hf => by cases g f <;> exact hf) fun _ hf => hf
  have hwrite : ∀ g : Table MetaRow.key → Table MetaRow.key,
      (∀ m, readMeta (g m) "last_indexed" = readMeta m "last_indexed") →
      Triple K (Script.statement (File.updateMeta · g)) (fun _ => K) (fun _ => K) K := fun g hg =>
    Triple.statement (fun f hf => by
      cases hm : f.metadata with
      | none => simpa only [File.updateMeta, hm] using hf
      | some m => simpa only [File.updateMeta, hm] using hmeta f m _ hf hm (hg m)) fun _ hf => hf
  have hcheck : Triple K (checkChainId chainId) (fun _ => K) (fun _ => K) K := by
    refine Triple.bind (hread _) fun stored => ?_
    cases stored with
    | none => exact hwrite _ fun m => by rw [readMeta_replace, if_neg (by simp)]
    | some stored =>
      dsimp only
      split
      · exact Triple.fail _ fun _ hf => hf
      · split
        · exact Triple.fail _ fun _ hf => hf
        · exact Triple.pure _ fun _ hf => hf
  have hbuild : Triple K (build chainId) (fun _ => K) (fun _ => K) K :=
    Triple.bind (Triple.batch_invariant _ fun b f f' => hcreate f b f') fun _ =>
      Triple.bind
        (hwrite _ fun m => by rw [readMeta_insertIgnore, if_neg (by simp), Option.or_none])
        fun _ => hcheck
  refine Triple.of_forall fun f hf => (migrate_spec chainId (f := f) hf (fun _ => ?_) fun _ => ?_)
  · refine Triple.bind (Q := fun _ => K) ?_ fun _ => hbuild
    refine (Triple.batch_invariant _ fun name f f' h heq => ?_).conseq (fun _ h => h ▸ hf)
      (fun _ _ h => h) (fun _ _ h => h) fun _ h => h
    cases heq
    exact hdrop f name h
  · exact hbuild.conseq (fun _ h => h ▸ hf) (fun _ _ h => h) (fun _ _ h => h) fun _ h => h

end Build

/-! ### Files nothing was written to -/

/-- A table that does not exist, or has the v3 shape and no rows. -/
def Unwritten {ρ κ : Type} {key : ρ → κ} (t : Option (Stored (Table key))) : Prop :=
  ∀ s, t = some s → s = .current .empty

theorem Unwritten.orCreate {ρ κ : Type} {key : ρ → κ} {t : Option (Stored (Table key))}
    (h : Unwritten t) : Unwritten (some (orCreate t)) := by
  rintro _ ⟨⟩
  cases t with
  | none => rfl
  | some s => exact h s rfl

/-- A file without rows and without a cursor: what killed opens of an empty file leave. -/
structure File.Vacant (f : File) : Prop where
  cursor : f.cursor = none
  addressTxs : Unwritten f.addressTxs
  txTypes : Unwritten f.txTypes
  txTypeCounts : Unwritten f.txTypeCounts
  consensusBlocks : Unwritten f.consensusBlocks
  tokenTransfers : Unwritten (f.tokenTransfers.map TransferTable.table)
  tokens : Unwritten f.tokens
  blocks : f.blocks = none
  transactions : f.transactions = none

theorem vacant_empty : File.empty.Vacant := by
  constructor <;> first | rfl | exact nofun

theorem File.Vacant.drop {f : File} (h : f.Vacant) (name : TableName) : (f.drop name).Vacant := by
  cases name with
  | metadata => exact { h with cursor := rfl }
  | addressTxs => exact { h with addressTxs := nofun }
  | txTypes => exact { h with txTypes := nofun }
  | txTypeCounts => exact { h with txTypeCounts := nofun }
  | consensusBlocks => exact { h with consensusBlocks := nofun }
  | tokenTransfers => exact { h with tokenTransfers := nofun }
  | tokens => exact { h with tokens := nofun }
  | blocks => exact { h with blocks := rfl }
  | transactions => exact { h with transactions := rfl }

theorem File.Vacant.create {f f' : File} (h : f.Vacant) {statement : Create}
    (hf : f.create statement = .ok f') : f'.Vacant := by
  cases statement with
  | table name =>
    cases name with
    | metadata =>
      cases hf
      refine { h with cursor := ?_ }
      cases hm : f.metadata with
      | none => simp only [File.cursor, Option.getD_none, Option.bind_some]; decide
      | some m => simpa only [File.cursor, hm, Option.getD_some] using h.cursor
    | addressTxs => cases hf; exact { h with addressTxs := h.addressTxs.orCreate }
    | txTypes => cases hf; exact { h with txTypes := h.txTypes.orCreate }
    | txTypeCounts => cases hf; exact { h with txTypeCounts := h.txTypeCounts.orCreate }
    | consensusBlocks => cases hf; exact { h with consensusBlocks := h.consensusBlocks.orCreate }
    | tokenTransfers =>
      cases hf
      refine { h with tokenTransfers := ?_ }
      rintro _ ⟨⟩
      cases ht : f.tokenTransfers with
      | none => rfl
      | some t => exact h.tokenTransfers _ (by rw [ht]; rfl)
    | tokens => cases hf; exact { h with tokens := h.tokens.orCreate }
    | blocks => cases hf; exact h
    | transactions => cases hf; exact h
  | index name =>
    simp only [File.create] at hf
    split at hf
    · cases hf
    · next t ht =>
      split at hf <;> cases hf
      refine { h with tokenTransfers := ?_ }
      rintro _ ⟨⟩
      rw [← h.tokenTransfers _ (by rw [ht]; rfl)]
      cases name <;> rfl

/-- An open of a file nothing was written to leaves one, wherever it stops. -/
theorem File.Vacant.migrate {f : File} (h : f.Vacant) (chainId : UInt64) (budget : Option ℕ) :
    (migrate chainId ⟨f, budget⟩).2.store.Vacant := by
  have hmeta : ∀ (f : File) (m m' : Table MetaRow.key), f.Vacant → f.metadata = some m →
      ExplorerIndexer.readMeta m' "last_indexed" = ExplorerIndexer.readMeta m "last_indexed" →
      File.Vacant { f with metadata := some m' } := fun f m m' h hm hsame => by
    refine { h with cursor := ?_ }
    have hcursor := h.cursor
    rw [File.cursor, hm, Option.bind_some, ← hsame] at hcursor
    exact hcursor
  have hspec := migrate_preserves chainId (fun _ name h => File.Vacant.drop h name)
    (fun _ _ _ h hf => File.Vacant.create h hf) hmeta ⟨f, budget⟩ h
  match hrun : ExplorerIndexer.migrate chainId ⟨f, budget⟩ with
  | (.ok (), s') => rw [hrun] at hspec; exact hspec.1
  | (.error (.failed e), s') => rw [hrun] at hspec; exact hspec
  | (.error .cut, s') => rw [hrun] at hspec; exact hspec.1

end ExplorerIndexer

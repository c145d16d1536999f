/-
  The cache of the contract manager against its directory.

  A cached contract should have its binary on disk, since a request for it is answered
  without a look at the file.  A response breaks this when it caches a contract whose
  file is not there in the end: the chain sent no bytecode, writing fails, the contract
  evicted to make room is the one being stored, or its file was removed before the
  response was handled.
-/
import VmEngine.Core.ContractManager

namespace VmEngine

namespace ContractManager
variable {cfg : ContractConfig} {cm cm' : ContractManager} {r : TxResponse} {removeOk : Bool}
  {write : WriteResult}

/-- Every cached contract has its binary on disk. -/
def OnDisk (cm : ContractManager) : Prop :=
  ∀ k p, cm.contractsLRU.find? k = some p → cm.disk p = .binary

/-- The cache records the path of each contract and stays within its bound. -/
structure PathsInv (cfg : ContractConfig) (cm : ContractManager) : Prop where
  bounded : cm.contractsLRU.len ≤ cm.contractsLRU.maxEntries
  path : ∀ k p, cm.contractsLRU.find? k = some p → p = cfg.path k

/-- The cache has no room for another contract. -/
def Full (cm : ContractManager) : Prop := cm.contractsLRU.len = cm.contractsLRU.maxEntries

instance (cm : ContractManager) : Decidable (Full cm) := inferInstanceAs (Decidable (_ = _))

/-! ## Handlers that change neither the files nor the entries -/

/-- The same entries, in whatever order, and the same files. -/
structure SameFiles (cm cm' : ContractManager) : Prop where
  find? : ∀ k, cm'.contractsLRU.find? k = cm.contractsLRU.find? k
  disk : cm'.disk = cm.disk
  len : cm'.contractsLRU.len = cm.contractsLRU.len
  maxEntries : cm'.contractsLRU.maxEntries = cm.contractsLRU.maxEntries

theorem SameFiles.onDisk (h : SameFiles cm cm') (hd : OnDisk cm) : OnDisk cm' := by
  intro k p hk
  rw [h.disk]
  exact hd k p (h.find? k ▸ hk)

theorem SameFiles.pathsInv (h : SameFiles cm cm') (hp : PathsInv cfg cm) : PathsInv cfg cm' where
  bounded := by rw [h.len, h.maxEntries]; exact hp.bounded
  path k p hk := hp.path k p (h.find? k ▸ hk)

theorem sameFiles_get (cm : ContractManager) (k : String) :
    SameFiles cm { cm with contractsLRU := (cm.contractsLRU.get k).2 } where
  find? k' := Lru.find?_get _ _ k'
  disk := rfl
  len := Lru.len_get _ _
  maxEntries := Lru.maxEntries_get _ _

theorem ready_of_send {key key' : RequestGroupKey} {code code' : DockerVMCode} {found : Bool}
    (h : ContractOut.ready key' code' ∈ (sendContractReadySignal key code found).1) :
    key' = key ∧ code' = code := by
  unfold sendContractReadySignal at h
  split_ifs at h
  · rw [List.mem_singleton] at h
    cases h
    exact ⟨rfl, rfl⟩
  · exact absurd h List.not_mem_nil

/-- Requests look the contract up; what is answered with OK is cached. -/
theorem handleGetContractReq_files (cm : ContractManager) (req : DockerVMMessage) (found : Bool) :
    SameFiles cm (handleGetContractReq cm req found).1 ∧
      ∀ key code, .ready key code ∈ (handleGetContractReq cm req found).2.1 →
        ∃ p, cm.contractsLRU.find? key.groupKey = some p := by
  unfold handleGetContractReq
  split
  · exact ⟨⟨fun _ => rfl, rfl, rfl, rfl⟩, fun _ _ h => absurd h List.not_mem_nil⟩
  · rename_i q hq
    have hsame := sameFiles_get cm q.key.groupKey
    have hfst := Lru.fst_get cm.contractsLRU q.key.groupKey
    split
    · rename_i p lru hget
      rw [hget] at hsame hfst
      refine ⟨hsame, fun key code h => ?_⟩
      obtain ⟨rfl, -⟩ := ready_of_send h
      exact ⟨p, hfst.symm⟩
    · rename_i lru hget
      rw [hget] at hsame
      refine ⟨hsame, fun key code h => ?_⟩
      rw [List.mem_singleton] at h
      cases h

/-! ## Eviction -/

/-- What the eviction of the oldest contract does; the flag tells whether the response
    is handled further. -/
inductive EvictCase (cm : ContractManager) (removeOk : Bool) : ContractManager → Bool → Prop
  | room : ¬ Full cm → EvictCase cm removeOk cm true
  | none : Full cm → cm.contractsLRU.oldest? = none → EvictCase cm removeOk cm false
  | kept {e} : Full cm → cm.contractsLRU.oldest? = some e →
      ¬ (removeOk = true ∧ cm.disk e.2 ≠ .absent) →
      EvictCase cm removeOk { cm with contractsLRU := cm.contractsLRU.removeOldest } false
  | removed {e} : Full cm → cm.contractsLRU.oldest? = some e → removeOk = true →
      cm.disk e.2 ≠ .absent → EvictCase cm removeOk
        { cm with
          contractsLRU := cm.contractsLRU.removeOldest
          disk := Function.update cm.disk e.2 .absent } true

theorem evictOldest_case (cm : ContractManager) (removeOk : Bool) :
    EvictCase cm removeOk (evictOldest cm removeOk).1 (evictOldest cm removeOk).2.isNone := by
  by_cases hfull : cm.contractsLRU.len = cm.contractsLRU.maxEntries
  · unfold evictOldest Lru.getOldest removeDir
    rw [if_pos hfull]
    cases hold : cm.contractsLRU.oldest? with
    | none => exact .none hfull hold
    | some e =>
      by_cases hrem : removeOk = true ∧ cm.disk e.2 ≠ .absent
      · simp only [Option.map_some, if_pos hrem]
        exact .removed hfull hold hrem.1 hrem.2
      · simp only [Option.map_some, if_neg hrem]
        exact .kept hfull hold hrem
  · unfold evictOldest
    rw [if_neg hfull]
    exact .room hfull

theorem find?_of_removeOldest {k : String} {p : Path}
    (h : cm.contractsLRU.removeOldest.find? k = some p) : cm.contractsLRU.find? k = some p := by
  cases hold : cm.contractsLRU.oldest? with
  | none => simpa only [Lru.removeOldest, hold] using h
  | some e =>
    rw [Lru.find?_removeOldest hold] at h
    split_ifs at h
    exact h

/-- After the eviction there is room, if the response is handled further. -/
theorem EvictCase.pathsInv {on : Bool} (h : EvictCase cm removeOk cm' on) (hp : PathsInv cfg cm) :
    PathsInv cfg cm' ∧ (on = true → cm'.contractsLRU.len < cm'.contractsLRU.maxEntries) := by
  have hle := hp.bounded
  have hold : ∀ {e} d, cm.contractsLRU.oldest? = some e →
      PathsInv cfg { cm with contractsLRU := cm.contractsLRU.removeOldest, disk := d } ∧
        cm.contractsLRU.removeOldest.len < cm.contractsLRU.removeOldest.maxEntries := by
    intro e d he
    have hlen := Lru.len_removeOldest he
    have hmax := Lru.maxEntries_removeOldest cm.contractsLRU
    refine ⟨⟨?_, fun k p hk => hp.path k p (find?_of_removeOldest hk)⟩, ?_⟩
    · show cm.contractsLRU.removeOldest.len ≤ cm.contractsLRU.removeOldest.maxEntries
      omega
    · omega
  cases h with
  | room hfull => exact ⟨hp, fun _ => lt_of_le_of_ne hle hfull⟩
  | none => exact ⟨hp, fun h => absurd h (by decide)⟩
  | kept _ he => exact ⟨(hold _ he).1, fun h => absurd h (by decide)⟩
  | removed _ he => exact ⟨(hold _ he).1, fun _ => (hold cm.disk he).2⟩

/-! ## Storing a contract -/

/-- The file of a contract after it was stored. -/
def savedFile (cfg : ContractConfig) (disk : Path → FileState) (r : TxResponse) (write : WriteResult) :
    FileState :=
  let file := disk (cfg.path r.key.groupKey)
  match cfg.chainRPCProtocol with
  | .uds => file
  | .tcp =>
    if r.result = [] then file
    else
      match write with
      | .written => .binary
      | .notOpened => file
      | .cutShort => .broken

theorem saveContract_eq (cfg : ContractConfig) (cm : ContractManager) (r : TxResponse)
    (write : WriteResult) : (saveContract cfg cm r write).1 =
      { cm with
        contractsLRU := cm.contractsLRU.add r.key.groupKey (cfg.path r.key.groupKey)
        disk := Function.update cm.disk (cfg.path r.key.groupKey) (savedFile cfg cm.disk r write) } := by
  have hsame : Function.update cm.disk (cfg.path r.key.groupKey) (cm.disk (cfg.path r.key.groupKey)) =
    cm.disk := Function.update_eq_self _ _
  unfold saveContract savedFile
  cases cfg.chainRPCProtocol with
  | uds => dsimp only; rw [hsame]
  | tcp =>
    dsimp only
    by_cases hr : r.result = []
    · rw [if_pos hr, if_pos hr, hsame]
    · rw [if_neg hr, if_neg hr]
      cases write with
      | written => rfl
      | notOpened => dsimp only [writeFile]; rw [hsame]
      | cutShort => rfl

theorem PathsInv.save (hp : PathsInv cfg cm) (hroom : cm.contractsLRU.len < cm.contractsLRU.maxEntries) :
    PathsInv cfg (saveContract cfg cm r write).1 := by
  rw [saveContract_eq]
  refine ⟨?_, fun k p hk => ?_⟩
  · have hlen := Lru.len_add_le hroom r.key.groupKey (cfg.path r.key.groupKey)
    have hmax := Lru.maxEntries_add cm.contractsLRU r.key.groupKey (cfg.path r.key.groupKey)
    dsimp only
    omega
  · dsimp only at hk
    rw [Lru.find?_add hroom] at hk
    split_ifs at hk with h
    · cases hk; rw [h]
    · exact hp.path k p hk

/-- The stored contract needs its file, and the others keep theirs. -/
theorem onDisk_save (hp : PathsInv cfg cm) (hroom : cm.contractsLRU.len < cm.contractsLRU.maxEntries) :
    OnDisk (saveContract cfg cm r write).1 ↔ savedFile cfg cm.disk r write = .binary ∧
      ∀ k p, cm.contractsLRU.find? k = some p → p ≠ cfg.path r.key.groupKey → cm.disk p = .binary := by
  rw [saveContract_eq]
  have hfind := fun k => Lru.find?_add hroom r.key.groupKey k (cfg.path r.key.groupKey)
  constructor
  · intro h
    constructor
    · have hself := h r.key.groupKey (cfg.path r.key.groupKey) (by rw [hfind, if_pos rfl])
      dsimp only at hself
      rwa [Function.update_self] at hself
    · intro k p hk hne
      have hkey : k ≠ r.key.groupKey := by
        rintro rfl
        exact hne (hp.path _ p hk)
      have hother := h k p (by rw [hfind, if_neg hkey]; exact hk)
      dsimp only at hother
      rwa [Function.update_of_ne hne] at hother
  · rintro ⟨hself, hother⟩ k p hk
    dsimp only at hk ⊢
    rw [hfind] at hk
    by_cases hpath : p = cfg.path r.key.groupKey
    · rw [hpath, Function.update_self, hself]
    · rw [Function.update_of_ne hpath]
      split_ifs at hk
      · cases hk; exact absurd rfl hpath
      · exact hother k p hk hpath

/-! ## The condition -/

/-- The contract's file is there, and it is not the one evicted now. -/
def Intact (cfg : ContractConfig) (cm : ContractManager) (contractKey : String) : Prop :=
  cm.disk (cfg.path contractKey) = .binary ∧
    (Full cm → ∀ e ∈ cm.contractsLRU.oldest?, e.2 ≠ cfg.path contractKey)

/-- The response is not rejected before the contract is stored. -/
def Stores (cm : ContractManager) (r : TxResponse) (removeOk : Bool) : Prop :=
  r.code = .ok ∧ (Full cm → removeOk = true ∧ cm.contractsLRU.oldest? ≠ none)

/-- **When a response may be handled.**  If the contract is to be stored, then the chain
    sent bytecode over TCP and writing it succeeds, or the file is there already and stays;
    and no other cached contract has its file under the path that is evicted. -/
def RespOk (cfg : ContractConfig) (cm : ContractManager) (r : TxResponse) (removeOk : Bool)
    (write : WriteResult) : Prop :=
  Stores cm r removeOk →
    ((cfg.chainRPCProtocol = .tcp ∧ r.result ≠ [] ∧ write = .written) ∨
      (Intact cfg cm r.key.groupKey ∧
        (cfg.chainRPCProtocol = .tcp → r.result = [] ∨ write = .notOpened))) ∧
    (Full cm → ∀ e ∈ cm.contractsLRU.oldest?, ∀ e' ∈ cm.contractsLRU.ll.entries, e'.1 ≠ e.1 →
      e'.2 = e.2 → e.2 = cfg.path r.key.groupKey)

/-- When a bad-contract report may be handled: no other cached contract has its file
    under the path that is removed. -/
def BadOk (cm : ContractManager) (msg : BadContractResp) (removeOk : Bool) : Prop :=
  removeOk = true → ∀ e ∈ cm.contractsLRU.ll.entries, e.1 = msg.key.groupKey →
    ∀ e' ∈ cm.contractsLRU.ll.entries, e'.1 ≠ e.1 → e'.2 ≠ e.2

/-- The condition on the next message. -/
def EventOk (cfg : ContractConfig) (cm : ContractManager) (removeOk : Bool) (write : WriteResult) :
    ContractEvent → Prop
  | .message msg =>
    msg.type = .getBytecodeResponse → ∀ r ∈ msg.response, RespOk cfg cm r removeOk write
  | .badContract msg => BadOk cm msg removeOk

/-- The condition on a step. -/
def FileOk (cfg : ContractConfig) (cm : ContractManager) : Action → Prop
  | .put _ => True
  | .recv _ removeOk write => ∀ e ∈ cm.eventCh.head?, EventOk cfg cm removeOk write e

instance (cfg : ContractConfig) (cm : ContractManager) (contractKey : String) :
    Decidable (Intact cfg cm contractKey) := inferInstanceAs (Decidable (_ ∧ _))

instance (cm : ContractManager) (r : TxResponse) (removeOk : Bool) :
    Decidable (Stores cm r removeOk) := inferInstanceAs (Decidable (_ ∧ _))

instance (cfg : ContractConfig) (cm : ContractManager) (r : TxResponse) (removeOk : Bool)
    (write : WriteResult) : Decidable (RespOk cfg cm r removeOk write) :=
  inferInstanceAs (Decidable (_ → _ ∧ _))

instance (cm : ContractManager) (msg : BadContractResp) (removeOk : Bool) :
    Decidable (BadOk cm msg removeOk) :=
  inferInstanceAs (Decidable (_ → ∀ e ∈ _, _ → ∀ e' ∈ _, _ → _))

instance (cfg : ContractConfig) (cm : ContractManager) (removeOk : Bool) (write : WriteResult)
    (e : ContractEvent) : Decidable (EventOk cfg cm removeOk write e) :=
  match e with
  | .message _ => inferInstanceAs (Decidable (_ → ∀ r ∈ _, _))
  | .badContract _ => inferInstanceAs (Decidable (BadOk _ _ _))

instance (cfg : ContractConfig) : DecidableRel (FileOk cfg) := fun cm a =>
  match a with
  | .put _ => instDecidableTrue
  | .recv _ removeOk write =>
    inferInstanceAs (Decidable (∀ e ∈ cm.eventCh.head?, EventOk cfg cm removeOk write e))

/-! ## Steps -/

/-- What is found under the path of a stored contract. -/
theorem savedFile_eq_binary (disk : Path → FileState) :
    savedFile cfg disk r write = .binary ↔
      (cfg.chainRPCProtocol = .tcp ∧ r.result ≠ [] ∧ write = .written) ∨
      (disk (cfg.path r.key.groupKey) = .binary ∧
        (cfg.chainRPCProtocol = .tcp → r.result = [] ∨ write = .notOpened)) := by
  unfold savedFile
  cases cfg.chainRPCProtocol with
  | uds => simp
  | tcp =>
    by_cases hr : r.result = []
    · simp [hr]
    · cases write <;> simp [hr]

/-- The cache and the files after an eviction. -/
theorem onDisk_evicted {e : String × Path} (he : cm.contractsLRU.oldest? = some e) (hd : OnDisk cm)
    {path : Path} :
    (∀ k p, cm.contractsLRU.removeOldest.find? k = some p → p ≠ path →
      Function.update cm.disk e.2 .absent p = .binary) ↔
    ∀ e' ∈ cm.contractsLRU.ll.entries, e'.1 ≠ e.1 → e'.2 = e.2 → e.2 = path := by
  constructor
  · intro h e' he' hne heq
    by_contra hpath
    have hfind : cm.contractsLRU.removeOldest.find? e'.1 = some e'.2 := by
      rw [Lru.find?_removeOldest he, if_neg hne]
      exact Lru.find?_eq_some.2 he'
    have habsent := h e'.1 e'.2 hfind (heq ▸ hpath)
    rw [heq, Function.update_self] at habsent
    exact absurd habsent (by decide)
  · intro h k p hk hpath
    have hfind := hk
    rw [Lru.find?_removeOldest he] at hfind
    split_ifs at hfind with hne
    have hpe : p ≠ e.2 := by
      intro heq
      exact hpath (heq.trans (h (k, p) (Lru.find?_eq_some.1 hfind) hne heq))
    rw [Function.update_of_ne hpe]
    exact hd k p hfind

/-- A response that goes past the eviction keeps the agreement exactly under the
    condition. -/
theorem onDisk_stored (h : EvictCase cm removeOk cm' true) (hcode : r.code = .ok)
    (hp : PathsInv cfg cm) (hd : OnDisk cm) :
    OnDisk (saveContract cfg cm' r write).1 ↔ RespOk cfg cm r removeOk write := by
  obtain ⟨hp', hroom⟩ := h.pathsInv hp
  rw [onDisk_save hp' (hroom rfl), savedFile_eq_binary]
  unfold RespOk Intact
  cases h with
  | room hfull =>
    have hstores : Stores cm r removeOk := ⟨hcode, fun h => absurd h hfull⟩
    have hothers : ∀ k p, cm.contractsLRU.find? k = some p → p ≠ cfg.path r.key.groupKey →
        cm.disk p = .binary := fun k p hk _ => hd k p hk
    rw [and_iff_left hothers]
    simp only [hstores, hfull, true_imp_iff, false_imp_iff, and_true]
  | @removed e hfull he hrem _ =>
    have hstores : Stores cm r removeOk := ⟨hcode, fun _ => ⟨hrem, by rw [he]; exact nofun⟩⟩
    have hintact : Function.update cm.disk e.2 .absent (cfg.path r.key.groupKey) = .binary ↔
        cm.disk (cfg.path r.key.groupKey) = .binary ∧ e.2 ≠ cfg.path r.key.groupKey := by
      by_cases hpath : cfg.path r.key.groupKey = e.2
      · rw [hpath, Function.update_self]
        exact ⟨fun h => absurd h (by decide), fun h => absurd rfl h.2⟩
      · rw [Function.update_of_ne hpath]
        exact ⟨fun h => ⟨h, fun h => hpath h.symm⟩, And.left⟩
    have hmem : ∀ P : String × Path → Prop, (∀ e' ∈ cm.contractsLRU.oldest?, P e') ↔ P e := by
      intro P
      rw [he]
      simp
    rw [onDisk_evicted he hd, hintact]
    simp only [hstores, hfull, hmem, true_imp_iff]

theorem handleGetContractResp_onDisk {msg : DockerVMMessage} (hr : msg.response = some r)
    (hp : PathsInv cfg cm) (hd : OnDisk cm) :
    OnDisk (handleGetContractResp cfg cm msg removeOk write).1 ↔ RespOk cfg cm r removeOk write := by
  unfold handleGetContractResp
  rw [hr]
  dsimp only
  cases hcode : r.code with
  | fail =>
    rw [if_pos rfl]
    exact ⟨fun _ hs => absurd (hcode.symm.trans hs.1) (by decide), fun _ => hd⟩
  | ok =>
    rw [if_neg (by decide)]
    have hcase := evictOldest_case cm removeOk
    generalize evictOldest cm removeOk = ev at hcase
    obtain ⟨cm₁, err⟩ := ev
    cases err with
    | none => exact onDisk_stored hcase hcode hp hd
    | some err =>
      -- the handler stopped: what is left in the cache was there before
      dsimp only [Option.isNone] at hcase ⊢
      cases hcase with
      | none hfull hold => exact ⟨fun _ hs => absurd hold (hs.2 hfull).2, fun _ => hd⟩
      | @kept e hfull hold hrem =>
        have hbin := hd e.1 e.2 (Lru.oldest?_find? hold)
        refine ⟨fun _ hs => absurd ⟨(hs.2 hfull).1, by rw [hbin]; decide⟩ hrem, fun _ k p hk => ?_⟩
        exact hd k p (find?_of_removeOldest hk)

theorem handleGetContractResp_pathsInv {msg : DockerVMMessage} (hp : PathsInv cfg cm) :
    PathsInv cfg (handleGetContractResp cfg cm msg removeOk write).1 := by
  unfold handleGetContractResp
  split
  · exact hp
  · split_ifs
    · exact hp
    · have hcase := evictOldest_case cm removeOk
      generalize evictOldest cm removeOk = ev at hcase
      obtain ⟨cm₁, err⟩ := ev
      obtain ⟨hp₁, hroom⟩ := hcase.pathsInv hp
      cases err with
      | some err => exact hp₁
      | none => exact hp₁.save (hroom rfl)

/-- What a response that is answered with OK leaves behind. -/
theorem handleGetContractResp_ok {msg : DockerVMMessage} (hr : msg.response = some r)
    (hp : PathsInv cfg cm) (h : (handleGetContractResp cfg cm msg removeOk write).2 = none) :
    (handleGetContractResp cfg cm msg removeOk write).1.contractsLRU.find? r.key.groupKey =
      some (cfg.path r.key.groupKey) := by
  unfold handleGetContractResp at h ⊢
  rw [hr] at h ⊢
  dsimp only at h ⊢
  split_ifs at h ⊢ with hcode
  have hcase := evictOldest_case cm removeOk
  generalize evictOldest cm removeOk = ev at hcase h ⊢
  obtain ⟨cm₁, err⟩ := ev
  cases err with
  | some err => cases h
  | none =>
    dsimp only
    rw [saveContract_eq]
    dsimp only
    rw [Lru.find?_add ((hcase.pathsInv hp).2 rfl), if_pos rfl]

/-- A report removes the contract from the cache, if it is there, and then its file. -/
theorem handleBadContractResp_eq (cm : ContractManager) (msg : BadContractResp) (removeOk : Bool) :
    (cm.contractsLRU.find? msg.key.groupKey = none ∧
      SameFiles cm (handleBadContractResp cm msg removeOk).1) ∨
    ∃ path, cm.contractsLRU.find? msg.key.groupKey = some path ∧
      (handleBadContractResp cm msg removeOk).1 =
        { cm with
          contractsLRU := (cm.contractsLRU.get msg.key.groupKey).2.remove msg.key.groupKey
          disk := (removeDir cm.disk path removeOk).1 } := by
  have hsame := sameFiles_get cm msg.key.groupKey
  have hfst := Lru.fst_get cm.contractsLRU msg.key.groupKey
  unfold handleBadContractResp
  dsimp only
  split
  · rename_i lru hget
    rw [hget] at hsame hfst
    exact Or.inl ⟨hfst.symm, hsame⟩
  · rename_i path lru hget
    rw [hget] at hfst
    refine Or.inr ⟨path, hfst.symm, ?_⟩
    rw [hget]
    unfold removeDir
    by_cases hrem : removeOk = true ∧ cm.disk path ≠ .absent
    · simp only [if_pos hrem]
    · simp only [if_neg hrem]

theorem find?_get_remove {lru : Lru String Path} {k k' : String} {p : Path} :
    ((lru.get k).2.remove k).find? k' = some p ↔ k' ≠ k ∧ lru.find? k' = some p := by
  rw [Lru.find?_remove, Lru.find?_get]
  by_cases hk : k' = k
  · simp [hk]
  · simp [hk]

theorem handleBadContractResp_pathsInv {msg : BadContractResp} (hp : PathsInv cfg cm) :
    PathsInv cfg (handleBadContractResp cm msg removeOk).1 := by
  rcases handleBadContractResp_eq cm msg removeOk with ⟨-, hsame⟩ | ⟨path, hfind, heq⟩
  · exact hsame.pathsInv hp
  · rw [heq]
    refine ⟨?_, fun k p hk => hp.path k p (find?_get_remove.1 hk).2⟩
    have hlen := Lru.len_remove_le (cm.contractsLRU.get msg.key.groupKey).2 msg.key.groupKey
    have hbound := ((sameFiles_get cm msg.key.groupKey).pathsInv hp).bounded
    exact hlen.trans hbound

theorem handleBadContractResp_onDisk {msg : BadContractResp} (hd : OnDisk cm) :
    OnDisk (handleBadContractResp cm msg removeOk).1 ↔ BadOk cm msg removeOk := by
  rcases handleBadContractResp_eq cm msg removeOk with ⟨hnone, hsame⟩ | ⟨path, hfind, heq⟩
  · refine ⟨fun _ _ e he hk => ?_, fun _ => hsame.onDisk hd⟩
    rw [← hk, Lru.find?_eq_some.2 he] at hnone
    cases hnone
  · rw [heq]
    have hentry : ∀ e ∈ cm.contractsLRU.ll.entries, e.1 = msg.key.groupKey → e.2 = path := by
      intro e he hk
      have hsome := Lru.find?_eq_some.2 he
      rw [hk, hfind] at hsome
      exact (Option.some.inj hsome).symm
    unfold removeDir
    by_cases hrem : removeOk = true
    · have hfile : cm.disk path ≠ .absent := by rw [hd _ _ hfind]; decide
      rw [if_pos ⟨hrem, hfile⟩]
      constructor
      · intro h _ e he hk e' he' hne hshared
        have habsent := h e'.1 e'.2 (find?_get_remove.2 ⟨hk ▸ hne, Lru.find?_eq_some.2 he'⟩)
        dsimp only at habsent
        rw [hshared, hentry e he hk, Function.update_self] at habsent
        exact absurd habsent (by decide)
      · intro h k p hk
        obtain ⟨hne, hk⟩ := find?_get_remove.1 hk
        have hpath : p ≠ path := h hrem (_, path) (Lru.find?_eq_some.1 hfind) rfl (k, p)
          (Lru.find?_eq_some.1 hk) hne
        dsimp only
        rw [Function.update_of_ne hpath]
        exact hd k p hk
    · rw [if_neg fun h => hrem h.1]
      exact ⟨fun _ h => absurd h hrem, fun _ k p hk => hd k p (find?_get_remove.1 hk).2⟩

theorem putMsg_files (e : ContractEvent) (hp : PathsInv cfg cm) (hd : OnDisk cm) :
    PathsInv cfg (putMsg cfg cm e) ∧ OnDisk (putMsg cfg cm e) := by
  refine ⟨⟨hp.bounded, hp.path⟩, fun k p hk => ?_⟩
  have hfile := hd k p hk
  unfold putMsg
  dsimp only
  cases writtenByChain cfg e with
  | none => exact hfile
  | some path =>
    dsimp only
    rw [Function.update_apply]
    split_ifs
    · rfl
    · exact hfile

/-- **What a step does to the agreement.**  It is kept exactly under the condition, and
    then a contract reported as ready has its binary. -/
theorem handleEvent_files {found : Bool} {e : ContractEvent} {outs : List ContractOut}
    (h : handleEvent cfg cm found removeOk write e = .ok (cm', outs))
    (hp : PathsInv cfg cm) (hd : OnDisk cm) :
    PathsInv cfg cm' ∧ (OnDisk cm' ↔ EventOk cfg cm removeOk write e) ∧
      ∀ key, .ready key .ok ∈ outs →
        cm'.contractsLRU.find? key.groupKey = some (cfg.path key.groupKey) := by
  cases e with
  | badContract msg =>
    cases h
    exact ⟨handleBadContractResp_pathsInv hp, handleBadContractResp_onDisk hd,
      fun _ h => absurd h List.not_mem_nil⟩
  | message msg =>
    unfold handleEvent at h
    dsimp only at h
    split at h
    · rename_i htype
      cases h
      obtain ⟨hsame, hready⟩ := handleGetContractReq_files cm msg found
      have hp' := hsame.pathsInv hp
      refine ⟨hp', ⟨fun _ h => ?_, fun _ => hsame.onDisk hd⟩, fun key hout => ?_⟩
      · rw [htype] at h
        cases h
      · obtain ⟨p, hfind⟩ := hready key .ok hout
        rw [hsame.find?, hfind, hp.path _ p hfind]
    · rename_i htype
      obtain ⟨outs', h₁, h₂⟩ := Go.bind_eq_ok.1 h
      cases h₂
      unfold processContractResp at h₁
      split at h₁
      · cases h₁
      · rename_i r hr
        have hout := Except.ok.inj h₁
        refine ⟨handleGetContractResp_pathsInv hp, ?_, fun key hkey => ?_⟩
        · rw [handleGetContractResp_onDisk hr hp hd]
          refine ⟨fun h _ r' hr' => ?_, fun h => h htype r hr⟩
          rw [hr] at hr'
          cases hr'
          exact h
        · rw [← hout] at hkey
          obtain ⟨rfl, hcode⟩ := ready_of_send hkey
          refine handleGetContractResp_ok hr hp ?_
          by_contra hne
          rw [if_pos (Option.ne_none_iff_isSome.1 hne)] at hcode
          cases hcode
    · rename_i hreq hresp
      cases h
      exact ⟨hp, ⟨fun _ h => absurd h hresp, fun _ => hd⟩, fun _ h => absurd h List.not_mem_nil⟩

/-- **What a step does to the agreement.**  It is kept exactly under the condition, and
    then a contract reported as ready has its binary. -/
theorem act_files {a : Action} {outs : List ContractOut} (h : act cfg cm a = .ok (cm', outs))
    (hp : PathsInv cfg cm) (hd : OnDisk cm) :
    PathsInv cfg cm' ∧ (OnDisk cm' ↔ FileOk cfg cm a) ∧
      ∀ key, .ready key .ok ∈ outs →
        cm'.contractsLRU.find? key.groupKey = some (cfg.path key.groupKey) := by
  cases a with
  | put e =>
    cases h
    obtain ⟨hp', hd'⟩ := putMsg_files e hp hd
    exact ⟨hp', ⟨fun _ => trivial, fun _ => hd'⟩, fun _ h => absurd h List.not_mem_nil⟩
  | recv found removeOk write =>
    unfold act at h
    dsimp only at h
    split at h
    · cases h
    · rename_i e rest hch
      obtain ⟨hp', hiff, hready⟩ := handleEvent_files h ⟨hp.bounded, hp.path⟩ hd
      refine ⟨hp', hiff.trans ?_, hready⟩
      have hhead : FileOk cfg cm (.recv found removeOk write) ↔ EventOk cfg cm removeOk write e := by
        simp [FileOk, hch]
      rw [hhead]
      cases e <;> exact Iff.rfl

/-! ## Start -/

theorem initContractLRU_files {files : List (String × Bool)} {i : ℕ}
    (h : initContractLRU cfg cm i files = some cm') (hp : PathsInv cfg cm) (hd : OnDisk cm)
    (hi : cm.contractsLRU.len ≤ i) (hnd : (files.map (cfg.path ·.1)).Nodup)
    (hnew : ∀ k p, cm.contractsLRU.find? k = some p → p ∉ files.map (cfg.path ·.1))
    (hfile : ∀ p ∈ files.map (cfg.path ·.1), cm.disk p = .binary) :
    PathsInv cfg cm' ∧ OnDisk cm' := by
  induction files generalizing cm i with
  | nil => cases h; exact ⟨hp, hd⟩
  | cons f files ih =>
    obtain ⟨name, removeOk⟩ := f
    rw [List.map_cons, List.nodup_cons] at hnd
    have hmem : ∀ {p}, p ∈ files.map (cfg.path ·.1) →
        p ∈ ((name, removeOk) :: files).map (cfg.path ·.1) :=
      fun hp => List.mem_cons_of_mem _ hp
    have hself : cm.disk (cfg.path name) = .binary := hfile _ List.mem_cons_self
    unfold initContractLRU at h
    dsimp only at h
    split_ifs at h with hlt
    · have hroom : cm.contractsLRU.len < cm.contractsLRU.maxEntries := by omega
      have hfind := fun k => Lru.find?_add hroom name k (cfg.path name)
      have hcached : ∀ {k p}, (cm.contractsLRU.add name (cfg.path name)).find? k = some p →
          (k = name ∧ p = cfg.path name) ∨ cm.contractsLRU.find? k = some p := by
        intro k p hk
        rw [hfind] at hk
        split_ifs at hk with hname
        · exact Or.inl ⟨hname, (Option.some.inj hk).symm⟩
        · exact Or.inr hk
      have hlen := Lru.len_add_le hroom name (cfg.path name)
      refine ih h ⟨?_, fun k p hk => ?_⟩ (fun k p hk => ?_) ?_ hnd.2 (fun k p hk => ?_)
        fun p hp => hfile p (hmem hp)
      · rw [Lru.maxEntries_add]
        exact hlen.trans hroom
      · rcases hcached hk with ⟨rfl, rfl⟩ | hk
        · rfl
        · exact hp.path k p hk
      · rcases hcached hk with ⟨rfl, rfl⟩ | hk
        · exact hself
        · exact hd k p hk
      · exact hlen.trans (Nat.add_le_add_right hi 1)
      · rcases hcached hk with ⟨rfl, rfl⟩ | hk
        · exact hnd.1
        · exact fun hp => hnew k p hk (hmem hp)
    · -- the removed file is cached under no key, and no later file is the same
      unfold removeDir at h
      split_ifs at h with hrem
      refine ih h ⟨hp.bounded, hp.path⟩ (fun k p hk => ?_) (hi.trans (Nat.le_succ i)) hnd.2
        (fun k p hk hp => hnew k p hk (hmem hp)) fun p hp => ?_
      · have hne : p ≠ cfg.path name := by
          rintro rfl
          exact hnew k _ hk List.mem_cons_self
        dsimp only
        rw [Function.update_of_ne hne]
        exact hd k p hk
      · have hne : p ≠ cfg.path name := by
          rintro rfl
          exact hnd.1 hp
        dsimp only
        rw [Function.update_of_ne hne]
        exact hfile p (hmem hp)

theorem new_files {maxEntries : ℕ} {files : List (String × Bool)}
    (hnd : (files.map (cfg.path ·.1)).Nodup) (h : new cfg maxEntries files = some cm) :
    PathsInv cfg cm ∧ OnDisk cm := by
  refine initContractLRU_files h ⟨Nat.zero_le _, nofun⟩ nofun le_rfl hnd nofun fun p hp => ?_
  exact if_pos hp

theorem step_eq_some {a : Action} (h : step cfg cm a = some cm') :
    ∃ outs, act cfg cm a = .ok (cm', outs) := by
  obtain ⟨⟨cm₁, outs⟩, hact, rfl⟩ := Option.map_eq_some_iff.1 h
  exact ⟨outs, Go.toOption_eq_some.1 hact⟩

/-- **Cached contracts have their binary on disk**, as long as the responses and
    reports meet the condition, and then a contract reported as ready with code OK has
    one.  A step keeps the agreement exactly if it meets the condition. -/
theorem cached_on_disk {maxEntries : ℕ} {files : List (String × Bool)} {cm₀ : ContractManager}
    (hnd : (files.map (cfg.path ·.1)).Nodup) (h₀ : new cfg maxEntries files = some cm₀)
    (h : Reach (step cfg) (FileOk cfg) cm₀ cm) :
    OnDisk cm ∧ ∀ a cm' outs, act cfg cm a = .ok (cm', outs) →
      (OnDisk cm' ↔ FileOk cfg cm a) ∧
      (FileOk cfg cm a → ∀ key, .ready key .ok ∈ outs →
        cm'.disk (cfg.path key.groupKey) = .binary) := by
  obtain ⟨hp, hd⟩ : PathsInv cfg cm ∧ OnDisk cm := by
    refine h.inv (I := fun cm => PathsInv cfg cm ∧ OnDisk cm) (new_files hnd h₀)
      fun ⟨hp, hd⟩ hok hstep => ?_
    obtain ⟨outs, hact⟩ := step_eq_some hstep
    obtain ⟨hp', hiff, -⟩ := act_files hact hp hd
    exact ⟨hp', hiff.2 hok⟩
  refine ⟨hd, fun a cm' outs hact => ?_⟩
  obtain ⟨-, hiff, hready⟩ := act_files hact hp hd
  exact ⟨hiff, fun hok key hout => hiff.2 hok _ _ (hready key hout)⟩

/-! ## Runs -/

def sampleConfig (protocol : ChainRPCProtocol) : ContractConfig := ⟨protocol, ["mount", "contracts"]⟩

/-- A manager with an empty directory and room for one contract. -/
def fresh : ContractManager := ⟨.new 1, [], fun _ => .absent⟩

def bytecodeReq : Action :=
  .put (.message ⟨"chain1", "tx1", .getBytecodeRequest, none, some ⟨"chain1", "fact", "v1", ""⟩, none⟩)

def bytecodeResp (result : List UInt8) : Action :=
  .put (.message ⟨"chain1", "tx1", .getBytecodeResponse, none, none,
    some ⟨.ok, "", "chain1", "fact", "v1", result⟩⟩)

/-- The next message is answered with OK; the flag tells whether the binary is there. -/
def AnswersReady (protocol : ChainRPCProtocol) (onDisk : Bool) (cm : ContractManager) : Bool :=
  match act (sampleConfig protocol) cm (.recv true true .written) with
  | .error _ => false
  | .ok (cm', outs) => outs = [.ready .sample .ok] &&
      (cm'.disk ((sampleConfig protocol).path (RequestGroupKey.sample).groupKey) = .binary) == onDisk

/-- The chain's bytecode was stored, and the next request is served from the cache. -/
theorem cached_on_disk_stored : ∃ cm, new (sampleConfig .tcp) 1 [] = some fresh ∧
    Reach (step (sampleConfig .tcp)) (FileOk (sampleConfig .tcp)) fresh cm ∧
    AnswersReady .tcp true cm ∧ OnDisk cm := by
  have hnew : new (sampleConfig .tcp) 1 [] = some fresh := rfl
  have hnd : (([] : List (String × Bool)).map ((sampleConfig .tcp).path ·.1)).Nodup := List.nodup_nil
  obtain ⟨cm, hr, hP⟩ := exists_reach (step (sampleConfig .tcp)) (FileOk (sampleConfig .tcp)) fresh
    (AnswersReady .tcp true)
    [bytecodeReq, .recv true true .written, bytecodeResp [1], .recv true true .written, bytecodeReq]
    (by decide)
  exact ⟨cm, hnew, hr, hP, (cached_on_disk hnd hnew hr).1⟩

/-- Over TCP a response without bytecode leaves the contract cached, and the next
    request is answered with OK.  Over a Unix domain socket the second of two responses
    for one contract evicts that very contract and is answered with OK. -/
theorem ready_without_binary :
    (∃ cm, Reach (step (sampleConfig .tcp)) Free fresh cm ∧ AnswersReady .tcp false cm) ∧
    ∃ cm, Reach (step (sampleConfig .uds)) Free fresh cm ∧ AnswersReady .uds false cm := by
  constructor
  · refine exists_reach _ Free _ _
      [bytecodeReq, .recv true true .written, bytecodeResp [], .recv true true .written, bytecodeReq] ?_
    decide
  · refine exists_reach _ Free _ _
      [bytecodeReq, .recv true true .written, bytecodeReq, .recv true true .written, bytecodeResp [],
        .recv true true .written, bytecodeResp []] ?_
    decide

end ContractManager

end VmEngine

import Yijinjing.Lib.Simulation
import Yijinjing.Paged.Wire

/-!
# Clients that talk to the engine in bytes

A system of processes with `PageProvider`s: a provider registers, registers journals, fills in the slots it
is given, asks for pages and says good bye, each time by an exchange over the socket (`Wire`) or by stores
into its slots; processes die without a word, and `PstPidCheck` looks for them.  An exchange, which does not
fail on either side, is one step, and so is a request for a page with its answer: a process that dies does so
between two of its calls.  (One that dies before it reads the response to an exchange dies behind it.)

The system refines the page service, so what holds of every run of the service holds of it, and a provider
that lives is known to the engine under its name, with its hash code and its slots (`clients_served`).
-/

namespace Yijinjing.Clients

open Lib Wire PageEngine

/-! ### The system -/

/-- A client name that fits its field. -/
structure ClientName where
  bytes : List UInt8
  short : ShortName bytes

/-- The name as the engine has it. -/
def ClientName.text (name : ClientName) : CStr := CStr.ofBytes name.bytes

/-- What the service starts with; the name of the communication file fits its field. -/
structure Site extends Setup where
  commFile_fits : CommFileFits commFile

/-- A `PageProvider`, and the slots of its journals. -/
structure Provider where
  name : ClientName
  pid : Int32
  isWriter : Bool
  hashCode : Int32
  /-- the slots it has filled in -/
  journals : List ℕ
  /-- the slot it has been given and not filled in yet -/
  pending : Option ℕ

/-- The slots it has been given. -/
def Provider.slots (p : Provider) : List ℕ := p.journals ++ p.pending.toList

structure State where
  engine : PageEngine
  /-- `_data` of the socket thread -/
  data : Mem
  /-- the processes that are alive -/
  procs : List Int32
  providers : ℕ → Option Provider
  /-- a provider has thrown "server buffer is not allocated" -/
  failed : Bool

inductive Action
  | spawn (pid : Int32)
  /-- a process dies, and its providers with it -/
  | crash (pid : Int32)
  /-- `PageProvider::PageProvider` -/
  | construct (i : ℕ) (name : ClientName) (pid : Int32) (isWriter : Bool) (x : Exchange)
  /-- `register_journal`: the exchange, and then the slot -/
  | registerJournal (i : ℕ) (x : Exchange)
  | fillSlot (i : ℕ) (dir jname : CStr)
  | getPage (i idx : ℕ) (pageNum : Int16) (addr : ℕ)
  | exitClient (i : ℕ) (x : Exchange)
  /-- somebody asks for the time -/
  | getSocketDiff (input : Mem) (x : Exchange)
  | pidCheck
  | tempPage (addr : ℕ)
  | disk (files folders : List CStr)

namespace State

def setProvider (s : State) (i : ℕ) (p : Option Provider) : State :=
  { s with providers := Function.update s.providers i p }

/-- `kill(pid, 0)` finds no such process. -/
def dead (s : State) (pid : Int32) : Bool := decide (pid ∉ s.procs)

end State

def step (s : State) : Action → Option State
  | .spawn pid => some { s with procs := pid :: s.procs }
  | .crash pid =>
    some { s with
      procs := s.procs.filter fun q => q ≠ pid
      providers := fun i => (s.providers i).filter fun p => p.pid ≠ pid }
  | .construct i name pid isWriter x =>
    if pid ∈ s.procs ∧ (s.providers i).isNone then
      (registerClient name.bytes pid isWriter s.engine s.data x).map fun (rsp, data, engine) =>
        let s := { s with data := data, engine := engine }
        match rsp with
        | some rsp => s.setProvider i (some ⟨name, pid, isWriter, rsp.hashCode, [], none⟩)
        | none => s
    else none
  | .registerJournal i x =>
    match s.providers i with
    | some p =>
      if p.pending.isNone then
        (registerJournal p.name.bytes s.engine s.data x).map fun (idx, data, engine) =>
          let s := { s with data := data, engine := engine }
          match idx with
          | some idx => s.setProvider i (some { p with pending := some idx.toInt.toNat })
          | none => s
      else none
    | none => none
  | .fillSlot i dir jname =>
    match s.providers i with
    | some p =>
      match p.pending with
      | some idx =>
        if PageProvider.Fits dir jname then
          if (s.engine.comm idx).status = .occupied then
            some ({ s with
              engine := s.engine.setMsg idx (PageProvider.hold (s.engine.comm idx) dir jname p.isWriter) }.setProvider
                i (some { p with journals := p.journals ++ [idx], pending := none }))
          else some { s with failed := true }
        else none
      | none => none
    | none => none
  | .getPage i idx pageNum addr =>
    match s.providers i with
    | some p =>
      if idx ∈ p.journals ∧ addr ∉ s.engine.os.mapped then
        some { s with engine := (s.engine.ask idx pageNum).answer idx addr }
      else none
    | none => none
  | .exitClient i x =>
    match s.providers i with
    | some p =>
      (exitClient p.name.bytes p.hashCode s.engine s.data x).map fun (data, engine) =>
        { s with data := data, engine := engine }.setProvider i none
    | none => none
  | .getSocketDiff input x =>
    (getSocketDiff s.engine s.data input x).map fun (_, data, engine) => { s with data := data, engine := engine }
  | .pidCheck => some { s with engine := s.engine.pidCheck s.dead }
  | .tempPage addr =>
    if addr ∈ s.engine.os.mapped then none else some { s with engine := s.engine.tempPage addr }
  | .disk files folders =>
    some { s with engine := { s.engine with os := { s.engine.os with files := files, folders := folders } } }

/-- The service has just started; nobody is there. -/
def Site.state (c : Site) : State where
  engine := c.engine
  data _ := 0
  procs := []
  providers _ := none
  failed := false

def clients (c : Site) : System State Action := ⟨c.state, step⟩

/-! ### What the service does for others -/

section Frame

variable {e t : PageEngine} {name : CStr} {info : PageClientInfo}

/-- The action is neither one of the client nor about one of its slots. -/
def Spares (name : CStr) (info : PageClientInfo) : PageEngine.Action → Prop
  | .event (.regJournal n) => n ≠ name
  | .event (.hold n _ _ _) => n ≠ name
  | .event (.exitClient n _ _) => n ≠ name
  | .event (.pidCheck dead) => dead info.pid = false
  | .request idx _ _ => idx ∉ info.userIndexVec
  | _ => True

/-- The client and its slots are as they were. -/
structure Unchanged (e t : PageEngine) (name : CStr) (info : PageClientInfo) : Prop where
  lookup : t.clientJournals.lookup name = some info
  comm : ∀ i ∈ info.userIndexVec, t.comm i = e.comm i

theorem Unchanged.keeps (h : Keeps e t) (hl : e.clientJournals.lookup name = some info) : Unchanged e t name info where
  lookup := by rw [h.clientJournals, hl]
  comm i _ := by rw [h.comm]

/-- A slot of another client is another slot. -/
theorem other_slot (hs : Slots e) {n : CStr} {other : PageClientInfo} {i idx : ℕ} (hn : n ≠ name)
    (hl : e.clientJournals.lookup name = some info) (hl' : e.clientJournals.lookup n = some other)
    (hi : i ∈ info.userIndexVec) (hidx : idx ∈ other.userIndexVec) : i ≠ idx := by
  rintro rfl
  exact hn (hs.owner_unique hl' hl hidx hi)

/-- **The frame of a service step**: nothing happens to a client that the step is not about. -/
theorem step_frame (hs : Slots e) (ht : TablesAgree e) (hl : e.clientJournals.lookup name = some info)
    {a : PageEngine.Action} (ha : Spares name info a) (h : e.step a = some t) : Unchanged e t name info := by
  cases a with
  | request idx pageNum addr =>
    obtain ⟨-, -, rfl⟩ := step_request h
    have hk := keeps_answer (e.ask idx pageNum) idx addr
    refine ⟨by rw [hk.clientJournals]; exact hl, fun i hi => ?_⟩
    have hne : i ≠ idx := fun hidx => ha (hidx ▸ hi)
    rw [answer_comm_ne _ addr hne, ask_comm_ne e pageNum hne]
  | event event =>
    have occupied : ∀ idx, e.freeIdx = some idx → ∀ i ∈ info.userIndexVec, (e.occupy idx).comm i = e.comm i := by
      intro idx hidx i hi
      rw [occupy_comm, if_neg]
      rintro rfl
      exact hs.not_mem_of_raw (freeIdx_some hidx).2 (mem_owned.mpr ⟨name, info, hl, hi⟩)
    cases event with
    | regClient n pid isWriter nano =>
      obtain rfl := Option.some.inj h
      cases hn : e.clientJournals.lookup n with
      | some _ =>
        rw [regClient_some hn]
        exact ⟨hl, fun _ _ => rfl⟩
      | none =>
        have hne : name ≠ n := by
          rintro rfl
          rw [hl] at hn
          cases hn
        obtain ⟨-, hc, -⟩ := regClient_none pid isWriter nano hn
        refine ⟨?_, fun i _ => by rw [hc]⟩
        rw [(regClient_tables pid isWriter nano hn).2, AList.lookup_insert_ne hne, hl]
    | regJournal n =>
      obtain rfl := Option.some.inj h
      rcases e.regJournal_cases n with ⟨-, hr⟩ | ⟨idx, hidx, -, hr⟩ | ⟨idx, other, hidx, -, hr⟩
      · rw [hr]
        exact ⟨hl, fun _ _ => rfl⟩
      · rw [hr]
        exact ⟨hl, occupied idx hidx⟩
      · rw [hr]
        refine ⟨?_, occupied idx hidx⟩
        exact (AList.lookup_insert_ne (Ne.symm ha)).trans hl
    | hold n idx dir jname =>
      obtain ⟨other, hother, hcan, rfl⟩ := apply_hold h
      exact ⟨hl, fun i hi => setMsg_comm_ne e _ (other_slot hs ha hl hother hi hcan.1.1)⟩
    | exitClient n hash check =>
      obtain rfl := Option.some.inj h
      rcases e.exitClient_cases n hash check with hx | ⟨other, hother, -, hx⟩
      · rw [hx]
        exact ⟨hl, fun _ _ => rfl⟩
      · rw [hx]
        refine ⟨(AList.lookup_erase_ne (Ne.symm ha)).trans hl, fun i hi => ?_⟩
        refine (foldl_freeSlot_comm other.userIndexVec e i).trans (if_neg fun hi' => ?_)
        exact other_slot hs ha hl hother hi hi' rfl
    | pidCheck dead =>
      obtain rfl := Option.some.inj h
      have hr := Reaped.of_tables hs ht dead
      have hdead : dead info.pid = false := ha
      refine ⟨?_, hr.kept name info hl hdead⟩
      rw [hr.clients, hl]
      simp [hdead, Option.filter_some]
    | tempPage addr =>
      obtain ⟨-, rfl⟩ := apply_tempPage h
      exact .keeps (keeps_tempPage e addr) hl
    | disk files folders =>
      obtain rfl := Option.some.inj h
      exact .keeps (keeps_disk e files folders) hl

end Frame

/-! ### The name of the communication file -/

section CommFile

variable {e t : PageEngine}

theorem commFile_setCounts (e : PageEngine) (w : Bool) (c : AList fun _ : PageKey => ℤ) :
    (e.setCounts w c).commFile = e.commFile := by
  unfold setCounts
  split <;> rfl

theorem commFile_dropAddr (e : PageEngine) (path : CStr) : (e.dropAddr path).commFile = e.commFile := by
  unfold dropAddr
  split <;> rfl

theorem commFile_releasePage (e : PageEngine) (msg : PageCommMsg) : (e.releasePage msg).commFile = e.commFile := by
  unfold PageEngine.releasePage
  split
  · rfl
  · split
    · dsimp only
      split
      · rw [commFile_dropAddr, commFile_setCounts]
      · rw [commFile_setCounts]
    · rw [commFile_setCounts]

theorem commFile_initiatePage (e : PageEngine) (msg : PageCommMsg) (addr : ℕ) :
    (e.initiatePage msg addr).2.commFile = e.commFile := by
  have hcount : ∀ e' : PageEngine, (e'.countPage msg).2.commFile = e'.commFile := by
    intro e'
    unfold countPage
    split
    · exact commFile_setCounts ..
    · split
      · rfl
      · exact commFile_setCounts ..
  have hm := maps e msg addr
  unfold initiatePage
  cases h : e.mapPage msg addr with
  | error status => rfl
  | ok e' =>
    rw [h] at hm
    refine (hcount e').trans ?_
    cases hm <;> rfl

theorem commFile_answer (e : PageEngine) (idx addr : ℕ) : (e.answer idx addr).commFile = e.commFile := by
  rw [answer_eq]
  refine (commFile_initiatePage _ _ _).trans ?_
  unfold releaseLast
  dsimp only
  split
  · exact commFile_releasePage ..
  · rfl

theorem commFile_exitClient (e : PageEngine) (name : CStr) (hash : Int32) (check : Bool) :
    (e.exitClient name hash check).commFile = e.commFile := by
  have hfree : ∀ (l : List ℕ) (e : PageEngine), (l.foldl freeSlot e).commFile = e.commFile := by
    intro l
    induction l with
    | nil => exact fun _ => rfl
    | cons idx l ih =>
      intro e
      refine (ih _).trans ?_
      unfold freeSlot
      dsimp only
      split
      · exact commFile_releasePage ..
      · rfl
  rcases e.exitClient_cases name hash check with hx | ⟨info, -, -, hx⟩
  · rw [hx]
  · rw [hx]
    exact hfree info.userIndexVec e

theorem commFile_pidCheck (e : PageEngine) (dead : Int32 → Bool) : (e.pidCheck dead).commFile = e.commFile := by
  unfold pidCheck
  induction e.clientsToRemove dead generalizing e with
  | nil => rfl
  | cons name names ih => exact (ih _).trans (commFile_exitClient ..)

theorem commFile_step {a : PageEngine.Action} (h : e.step a = some t) : t.commFile = e.commFile := by
  cases a with
  | request idx pageNum addr =>
    obtain ⟨-, -, rfl⟩ := step_request h
    exact commFile_answer ..
  | event event =>
    cases event with
    | regClient n pid isWriter nano =>
      obtain rfl := Option.some.inj h
      unfold PageEngine.regClient
      split <;> rfl
    | regJournal n =>
      obtain rfl := Option.some.inj h
      rcases e.regJournal_cases n with ⟨-, hr⟩ | ⟨idx, -, -, hr⟩ | ⟨idx, other, -, -, hr⟩ <;> rw [hr] <;> rfl
    | hold n idx dir jname =>
      obtain ⟨other, -, -, rfl⟩ := apply_hold h
      rfl
    | exitClient n hash check =>
      obtain rfl := Option.some.inj h
      exact commFile_exitClient ..
    | pidCheck dead =>
      obtain rfl := Option.some.inj h
      exact commFile_pidCheck ..
    | tempPage addr =>
      obtain ⟨-, rfl⟩ := apply_tempPage h
      unfold PageEngine.tempPage
      split <;> rfl
    | disk files folders =>
      obtain rfl := Option.some.inj h
      rfl

end CommFile

/-! ### What the engine knows of a provider -/

/-- The engine knows the provider as it is. -/
structure Known (e : PageEngine) (p : Provider) : Prop where
  registered : ∃ info, e.clientJournals.lookup p.name.text = some info ∧ info.pid = p.pid ∧
    info.isWriting = p.isWriter ∧ info.hashCode = p.hashCode ∧ info.userIndexVec = p.slots
  /-- the slots that it has filled in can be asked for pages -/
  journals : ∀ idx ∈ p.journals, (e.comm idx).status ∉ [.raw, .occupied, .requesting] ∧
    (e.comm idx).isWriter = p.isWriter
  /-- the slot that it has been given waits for it -/
  pending : ∀ idx ∈ p.pending, (e.comm idx).status = .occupied

structure Inv (c : Site) (s : State) : Prop where
  slots : Slots s.engine
  tables : TablesAgree s.engine
  orphans : NoOrphans s.engine
  commFile : s.engine.commFile = c.commFile
  known : ∀ i p, s.providers i = some p → Known s.engine p ∧ p.pid ∈ s.procs
  /-- no two providers have one name -/
  names : ∀ i j p q, s.providers i = some p → s.providers j = some q → p.name.text = q.name.text → i = j
  not_failed : s.failed = false

variable {c : Site} {s t : State} {e : PageEngine} {p q : Provider} {i j : ℕ}

theorem Inv.start (c : Site) : Inv c c.state where
  slots := Slots.start
  tables := TablesAgree.start ..
  orphans _ _ hraw := absurd rfl hraw
  commFile := rfl
  known i p hp := by cases hp
  names i j p q hp := by cases hp
  not_failed := rfl

theorem Known.of_unchanged (hk : Known s.engine q)
    (h : ∀ info, s.engine.clientJournals.lookup q.name.text = some info → info.userIndexVec = q.slots →
      info.pid = q.pid → Unchanged s.engine e q.name.text info) : Known e q := by
  obtain ⟨info, hl, hpid, hw, hhash, hslots⟩ := hk.registered
  obtain ⟨hl', hc⟩ := h info hl hslots hpid
  rw [hslots] at hc
  refine ⟨⟨info, hl', hpid, hw, hhash, hslots⟩, fun idx hidx => ?_, fun idx hidx => ?_⟩
  · rw [hc idx (List.mem_append_left _ hidx)]
    exact hk.journals idx hidx
  · rw [hc idx (List.mem_append_right _ (Option.mem_toList.mpr hidx))]
    exact hk.pending idx hidx

/-- The invariant after a service step, the providers apart. -/
structure Inv.Core (c : Site) (e : PageEngine) : Prop where
  slots : Slots e
  tables : TablesAgree e
  orphans : NoOrphans e
  commFile : e.commFile = c.commFile

theorem Inv.core (hs : Inv c s) {a : PageEngine.Action} (ha : KnownClient s.engine a)
    (h : s.engine.step a = some e) : Inv.Core c e where
  slots := hs.slots.step h
  tables := hs.tables.step h
  orphans := (hs.orphans.step_iff hs.slots h).mpr ha
  commFile := (commFile_step h).trans hs.commFile

/-- A provider that a service step is not about. -/
theorem Inv.known_of_spares (hs : Inv c s) (hq : s.providers j = some q) {a : PageEngine.Action}
    (h : s.engine.step a = some e)
    (ha : ∀ info, info.userIndexVec = q.slots → info.pid = q.pid → Spares q.name.text info a) : Known e q :=
  (hs.known j q hq).1.of_unchanged fun _ hl hslots hpid =>
    step_frame hs.slots hs.tables hl (ha _ hslots hpid) h

/-- No two providers have a slot in common. -/
theorem Inv.slots_apart (hs : Inv c s) (hp : s.providers i = some p) (hq : s.providers j = some q) (hij : i ≠ j)
    {idx : ℕ} (hidx : idx ∈ p.slots) : idx ∉ q.slots := by
  intro hidx'
  obtain ⟨info, hl, -, -, -, hslots⟩ := (hs.known i p hp).1.registered
  obtain ⟨info', hl', -, -, -, hslots'⟩ := (hs.known j q hq).1.registered
  exact hij (hs.names i j p q hp hq (hs.slots.owner_unique hl hl' (hslots ▸ hidx) (hslots' ▸ hidx')))

/-- Nothing but the engine has changed. -/
theorem Inv.of_core (hs : Inv c s) (hc : Inv.Core c e) (data : Mem)
    (hk : ∀ j q, s.providers j = some q → Known e q) : Inv c { s with engine := e, data := data } where
  slots := hc.slots
  tables := hc.tables
  orphans := hc.orphans
  commFile := hc.commFile
  known j q hq := ⟨hk j q hq, (hs.known j q hq).2⟩
  names := hs.names
  not_failed := hs.not_failed

/-- Besides the engine, one provider has changed. -/
theorem Inv.of_setProvider (hs : Inv c s) (hc : Inv.Core c e) (data : Mem)
    (hk : ∀ j q, j ≠ i → s.providers j = some q → Known e q) {r : Option Provider}
    (hr : ∀ p, r = some p → Known e p ∧ p.pid ∈ s.procs ∧
      ∀ j q, j ≠ i → s.providers j = some q → q.name.text ≠ p.name.text) :
    Inv c ({ s with engine := e, data := data }.setProvider i r) where
  slots := hc.slots
  tables := hc.tables
  orphans := hc.orphans
  commFile := hc.commFile
  known j q hq := by
    simp only [State.setProvider, Function.update_apply] at hq
    split at hq
    · exact ⟨(hr q hq).1, (hr q hq).2.1⟩
    · rename_i hji
      exact ⟨hk j q hji hq, (hs.known j q hq).2⟩
  names j k p q hp hq hname := by
    simp only [State.setProvider, Function.update_apply] at hp hq
    split at hp <;> split at hq
    · rename_i hj hk
      rw [hj, hk]
    · rename_i hki
      exact absurd hname.symm ((hr p hp).2.2 k q hki hq)
    · rename_i hji _
      exact absurd hname ((hr q hq).2.2 j p hji hp)
    · exact hs.names j k p q hp hq hname
  not_failed := hs.not_failed

/-! ### The exchanges of a provider -/

variable {name : ClientName} {pid : Int32} {isWriter : Bool} {x : Exchange}

theorem knownClient_of_ne {a : PageEngine.Action} (h : ∀ n, a ≠ .event (.regJournal n)) : KnownClient e a :=
  fun n hn => absurd hn (h n)

/-- **A provider is constructed**: it has the hash code of its entry, unless its name is taken. -/
theorem step_construct (hs : Inv c s) (hpid : pid ∈ s.procs) (hi : s.providers i = none) (name : ClientName)
    (isWriter : Bool) (x : Exchange) : ∃ data,
    step s (.construct i name pid isWriter x) = some (
      let t := { s with data := data, engine := (s.engine.regClient name.text pid isWriter x.server.nano).2 }
      if (s.engine.clientJournals.lookup name.text).isSome then t
      else t.setProvider i (some ⟨name, pid, isWriter, clientHash name.text x.server.nano pid, [], none⟩)) := by
  obtain ⟨data, hx⟩ := registerClient_spec name.short (hs.commFile ▸ c.commFile_fits) pid isWriter s.data x
  change Wire.registerClient name.bytes pid isWriter s.engine s.data x = some
    ((s.engine.regClient name.text pid isWriter x.server.nano).1.map granted, data,
      (s.engine.regClient name.text pid isWriter x.server.nano).2) at hx
  refine ⟨data, ?_⟩
  unfold step
  dsimp only
  rw [if_pos ⟨hpid, by rw [hi]; rfl⟩, hx, Option.map_some]
  cases hl : s.engine.clientJournals.lookup name.text with
  | some info =>
    rw [regClient_some hl]
    rfl
  | none =>
    have hret : (s.engine.regClient name.text pid isWriter x.server.nano).1 =
        some ⟨s.engine.commFile, commSize, clientHash name.text x.server.nano pid⟩ := by
      simp [PageEngine.regClient, hl]
    rw [hret]
    rfl

/-- **A provider registers a journal**: it has got the slot that the engine has given it, if there was one. -/
theorem step_registerJournal (hp : s.providers i = some p) (hpending : p.pending = none) (x : Exchange) : ∃ data,
    step s (.registerJournal i x) = some (
      let t := { s with data := data, engine := (s.engine.regJournal p.name.text).2 }
      match (s.engine.regJournal p.name.text).1 with
      | some idx => t.setProvider i (some { p with pending := some idx })
      | none => t) := by
  obtain ⟨data, hx⟩ := registerJournal_spec p.name.short s.engine s.data x
  change Wire.registerJournal p.name.bytes s.engine s.data x = some
    ((s.engine.regJournal p.name.text).1.map Int32.ofNat, data, (s.engine.regJournal p.name.text).2) at hx
  refine ⟨data, ?_⟩
  unfold step
  dsimp only
  rw [hp]
  dsimp only
  rw [hpending, if_pos Option.isNone_none, hx, Option.map_some]
  rcases s.engine.regJournal_cases p.name.text with ⟨-, hr⟩ | ⟨idx, -, -, hr⟩ | ⟨idx, info, hidx, -, hr⟩
  · rw [hr]
    rfl
  · rw [hr]
    rfl
  · have hlt : idx < 1000 := (freeIdx_some hidx).1
    have hint : (Int32.ofNat idx).toInt.toNat = idx := by
      rw [Int32.toInt_ofNat_of_lt (by omega)]
      rfl
    rw [hr]
    dsimp only [Option.map_some]
    rw [hint]

/-- **A provider says good bye.** -/
theorem step_exitClient (hp : s.providers i = some p) (x : Exchange) : ∃ data,
    step s (.exitClient i x) = some
      ({ s with data := data, engine := s.engine.exitClient p.name.text p.hashCode true }.setProvider i none) := by
  obtain ⟨data, hx⟩ := exitClient_spec p.name.short p.hashCode s.engine s.data x
  change Wire.exitClient p.name.bytes p.hashCode s.engine s.data x =
    some (data, s.engine.exitClient p.name.text p.hashCode true) at hx
  refine ⟨data, ?_⟩
  unfold step
  dsimp only
  rw [hp]
  dsimp only
  rw [hx]
  rfl

/-! ### The steps -/

/-- A step of the system is one step of the service at most. -/
structure Serves (c : Site) (s t : State) : Prop where
  inv : Inv c t
  run : ∃ bs, (service c.toSetup).run s.engine bs = some t.engine

theorem Serves.of_step {a : PageEngine.Action} (h : s.engine.step a = some t.engine) (hi : Inv c t) : Serves c s t :=
  ⟨hi, [a], by rw [System.run_cons_of_step (service c.toSetup) h]; rfl⟩

theorem Serves.construct (hs : Inv c s) (hpid : pid ∈ s.procs) (hi : s.providers i = none)
    (h : step s (.construct i name pid isWriter x) = some t) : Serves c s t := by
  obtain ⟨data, hx⟩ := step_construct hs hpid hi name isWriter x
  rw [hx] at h
  obtain rfl := Option.some.inj h
  set e := (s.engine.regClient name.text pid isWriter x.server.nano).2 with he
  have hcall : s.engine.step (.event (.regClient name.text pid isWriter x.server.nano)) = some e := rfl
  have hc : Inv.Core c e := hs.core (knownClient_of_ne fun n hn => by cases hn) hcall
  have hk : ∀ j q, s.providers j = some q → Known e q := fun j q hq =>
    hs.known_of_spares hq hcall fun _ _ _ => trivial
  dsimp only
  cases hl : s.engine.clientJournals.lookup name.text with
  | some info => exact .of_step hcall (hs.of_core hc data hk)
  | none =>
    refine .of_step hcall (hs.of_setProvider hc data (fun j q _ => hk j q) fun p hp => ?_)
    obtain rfl := Option.some.inj hp
    have hentry : e.clientJournals.lookup name.text = some
        { userIndexVec := [], pid := pid, hashCode := clientHash name.text x.server.nano pid, isWriting := isWriter } := by
      rw [he, (regClient_tables pid isWriter x.server.nano hl).2, AList.lookup_insert]
    refine ⟨⟨⟨_, hentry, rfl, rfl, rfl, rfl⟩, fun idx hidx => ?_, fun idx hidx => ?_⟩, hpid, fun j q _ hq hname => ?_⟩
    · cases hidx
    · cases hidx
    · obtain ⟨info, hq', -⟩ := (hs.known j q hq).1.registered
      rw [show q.name.text = name.text from hname, hl] at hq'
      cases hq'

theorem Serves.registerJournal (hs : Inv c s) (hp : s.providers i = some p) (hpending : p.pending = none)
    (h : step s (.registerJournal i x) = some t) : Serves c s t := by
  obtain ⟨data, hx⟩ := step_registerJournal hp hpending x
  rw [hx] at h
  obtain rfl := Option.some.inj h
  obtain ⟨hk, hpid⟩ := hs.known i p hp
  obtain ⟨info, hl, hinfo, hw, hhash, hslots⟩ := hk.registered
  have hcall : s.engine.step (.event (.regJournal p.name.text)) = some (s.engine.regJournal p.name.text).2 := rfl
  generalize he : (s.engine.regJournal p.name.text).2 = e at hcall
  have hc : Inv.Core c e := by
    refine hs.core (fun n hn => .inr ?_) hcall
    cases hn
    rw [hl]
    rfl
  have hother : ∀ j q, j ≠ i → s.providers j = some q → Known e q := fun j q hji hq =>
    hs.known_of_spares hq hcall fun _ _ _ hname => hji (hs.names j i q p hq hp hname.symm)
  dsimp only
  rcases s.engine.regJournal_cases p.name.text with ⟨-, hr⟩ | ⟨_, _, hnone, _⟩ | ⟨idx, info', hidx, hl', hr⟩
  · have hsame : e = s.engine := by rw [← he, hr]
    rw [hr]
    dsimp only
    refine .of_step hcall (hs.of_core hc data fun j q hq => ?_)
    rw [hsame]
    exact (hs.known j q hq).1
  · rw [hl] at hnone
    cases hnone
  · obtain rfl := Option.some.inj (hl.symm.trans hl')
    have hcomm : ∀ k, e.comm k = (s.engine.occupy idx).comm k := fun k => by rw [← he, hr]
    have hnot : idx ∉ p.slots := fun hmem =>
      hs.slots.not_mem_of_raw (freeIdx_some hidx).2 (mem_owned.mpr ⟨_, info, hl, hslots ▸ hmem⟩)
    have hentry : e.clientJournals.lookup p.name.text =
        some { info with userIndexVec := info.userIndexVec ++ [idx] } := by
      rw [← he, hr]
      exact AList.lookup_insert _
    rw [hr]
    dsimp only
    refine .of_step hcall (hs.of_setProvider hc data hother fun r hr' => ?_)
    obtain rfl := Option.some.inj hr'
    refine ⟨⟨⟨_, hentry, hinfo, hw, hhash, ?_⟩, fun k hk' => ?_, fun k hk' => ?_⟩, hpid, fun j q hji hq hname =>
      hji (hs.names j i q p hq hp hname)⟩
    · show info.userIndexVec ++ [idx] = p.journals ++ [idx]
      rw [hslots]
      unfold Provider.slots
      rw [hpending]
      exact congrArg (· ++ [idx]) (List.append_nil _)
    · have hki : k ≠ idx := by
        rintro rfl
        exact hnot (List.mem_append_left _ hk')
      rw [hcomm, occupy_comm, if_neg hki]
      exact hk.journals k hk'
    · obtain rfl := Option.some.inj hk'
      rw [hcomm, occupy_comm, if_pos rfl]

theorem Serves.fillSlot {dir jname : CStr} {idx : ℕ} (hs : Inv c s) (hp : s.providers i = some p)
    (hpending : p.pending = some idx) (h : step s (.fillSlot i dir jname) = some t) : Serves c s t := by
  obtain ⟨hk, hpid⟩ := hs.known i p hp
  obtain ⟨info, hl, hinfo, hw, hhash, hslots⟩ := hk.registered
  have hoccupied : (s.engine.comm idx).status = .occupied := hk.pending idx hpending
  have hmem : idx ∈ p.slots := by
    unfold Provider.slots
    rw [hpending]
    exact List.mem_append_right _ (List.mem_singleton_self idx)
  have hown : idx ∈ info.userIndexVec := hslots ▸ hmem
  unfold step at h
  dsimp only at h
  rw [hp] at h
  dsimp only at h
  rw [hpending] at h
  dsimp only at h
  have hfits : PageProvider.Fits dir jname := by
    by_contra hnot
    rw [if_neg hnot] at h
    cases h
  rw [if_pos hfits, if_pos hoccupied] at h
  obtain rfl := Option.some.inj h
  set e := s.engine.setMsg idx (PageProvider.hold (s.engine.comm idx) dir jname p.isWriter) with he
  have happly : s.engine.apply (.hold p.name.text idx dir jname) = some e := by
    unfold PageEngine.apply
    dsimp only
    rw [hl]
    dsimp only
    rw [if_pos ⟨⟨hown, hoccupied⟩, hfits⟩, hw]
  have hcall : s.engine.step (.event (.hold p.name.text idx dir jname)) = some e := happly
  have hc : Inv.Core c e := hs.core (knownClient_of_ne fun n hn => by cases hn) hcall
  have hother : ∀ j q, j ≠ i → s.providers j = some q → Known e q := fun j q hji hq =>
    hs.known_of_spares hq hcall fun _ _ _ hname => hji (hs.names j i q p hq hp hname.symm)
  refine .of_step hcall (hs.of_setProvider hc s.data hother fun r hr => ?_)
  obtain rfl := Option.some.inj hr
  have hnot : ∀ k ∈ p.journals, k ≠ idx := by
    rintro k hk' rfl
    exact (hk.journals k hk').1 (by rw [hoccupied]; simp)
  refine ⟨⟨⟨info, hl, hinfo, hw, hhash, ?_⟩, fun k hk' => ?_, fun k hk' => ?_⟩, hpid, fun j q hji hq hname =>
    hji (hs.names j i q p hq hp hname)⟩
  · rw [hslots]
    unfold Provider.slots
    rw [hpending]
    exact (List.append_nil _).symm
  · rcases List.mem_append.mp hk' with hk' | hk'
    · rw [he, setMsg_comm_ne _ _ (hnot k hk')]
      exact hk.journals k hk'
    · rw [List.mem_singleton.mp hk', he, setMsg_comm_self]
      exact ⟨by simp [PageProvider.hold], rfl⟩
  · cases hk'

theorem Serves.getPage {idx addr : ℕ} {pageNum : Int16} (hs : Inv c s) (hp : s.providers i = some p)
    (h : step s (.getPage i idx pageNum addr) = some t) : Serves c s t := by
  obtain ⟨hk, hpid⟩ := hs.known i p hp
  obtain ⟨info, hl, hinfo, hw, hhash, hslots⟩ := hk.registered
  unfold step at h
  dsimp only at h
  rw [hp] at h
  dsimp only at h
  split at h
  case isFalse => cases h
  case isTrue hcan =>
  obtain ⟨hmem, hfresh⟩ := hcan
  obtain rfl := Option.some.inj h
  have hslot : idx ∈ p.slots := List.mem_append_left _ hmem
  set e := (s.engine.ask idx pageNum).answer idx addr with he
  have hcall : s.engine.step (.request idx pageNum addr) = some e := by
    unfold PageEngine.step
    exact if_pos ⟨⟨mem_owned.mpr ⟨_, info, hl, hslots ▸ hslot⟩, (hk.journals idx hmem).1⟩, hfresh⟩
  have hc : Inv.Core c e := hs.core (knownClient_of_ne fun n hn => by cases hn) hcall
  have hkeeps := keeps_answer (s.engine.ask idx pageNum) idx addr
  refine .of_step hcall (hs.of_core hc s.data fun j q hq => ?_)
  by_cases hji : j = i
  · subst hji
    obtain rfl := Option.some.inj (hp.symm.trans hq)
    have hcomm : ∀ k, k ≠ idx → e.comm k = s.engine.comm k := fun k hki => by
      rw [he, answer_comm_ne _ addr hki, ask_comm_ne _ pageNum hki]
    refine ⟨⟨info, by rw [he, hkeeps.clientJournals]; exact hl, hinfo, hw, hhash, hslots⟩, fun k hk' => ?_,
      fun k hk' => ?_⟩
    · by_cases hki : k = idx
      · subst hki
        obtain ⟨h1, h2, h3⟩ := answerStatus_ne (s.engine.ask k pageNum) k addr
        rw [he, answer_comm_self, ask_comm_self]
        refine ⟨?_, (hk.journals k hk').2⟩
        simp [h1, h2, h3]
      · rw [hcomm k hki]
        exact hk.journals k hk'
    · rw [hcomm k]
      · exact hk.pending k hk'
      · rintro rfl
        exact (hk.journals k hmem).1 (by rw [hk.pending k hk']; simp)
  · refine hs.known_of_spares hq hcall fun info' hslots' _ hidx => ?_
    exact hs.slots_apart hp hq (Ne.symm hji) hslot (hslots' ▸ hidx)

theorem Serves.exitClient (hs : Inv c s) (hp : s.providers i = some p)
    (h : step s (.exitClient i x) = some t) : Serves c s t := by
  obtain ⟨data, hx⟩ := step_exitClient hp x
  rw [hx] at h
  obtain rfl := Option.some.inj h
  set e := s.engine.exitClient p.name.text p.hashCode true with he
  have hcall : s.engine.step (.event (.exitClient p.name.text p.hashCode true)) = some e := rfl
  have hc : Inv.Core c e := hs.core (knownClient_of_ne fun n hn => by cases hn) hcall
  refine .of_step hcall (hs.of_setProvider hc data (fun j q hji hq => ?_) fun r hr => by cases hr)
  exact hs.known_of_spares hq hcall fun _ _ _ hname => hji (hs.names j i q p hq hp hname.symm)

/-- A step of the engine that nobody has asked for. -/
theorem Serves.own (hs : Inv c s) {event : PageEngine.Event} (happly : s.engine.apply event = some e)
    (hj : ∀ n, event ≠ .regJournal n)
    (hspares : ∀ j q info, s.providers j = some q → info.pid = q.pid →
      Spares q.name.text info (.event event)) : Serves c s { s with engine := e } := by
  have hcall : s.engine.step (.event event) = some e := happly
  have hc : Inv.Core c e := hs.core (knownClient_of_ne fun n hn => hj n (PageEngine.Action.event.inj hn)) hcall
  refine .of_step hcall (hs.of_core hc s.data fun j q hq => ?_)
  exact hs.known_of_spares hq hcall fun info _ hpid => hspares j q info hq hpid

theorem Serves.idle (ht : Inv c t) (h : t.engine = s.engine) : Serves c s t :=
  ⟨ht, [], by rw [System.run_nil, h]⟩

theorem Serves.crash (hs : Inv c s) (pid : Int32) (h : step s (.crash pid) = some t) : Serves c s t := by
  obtain rfl := Option.some.inj h
  have hlive : ∀ j q, (s.providers j).filter (fun p => decide (p.pid ≠ pid)) = some q →
      s.providers j = some q ∧ q.pid ≠ pid := by
    intro j q hq
    obtain ⟨hq, hne⟩ := Option.filter_eq_some_iff.mp hq
    exact ⟨hq, of_decide_eq_true hne⟩
  refine .idle { hs with known := fun j q hq => ?_, names := fun j k q r hq hr => ?_ } rfl
  · obtain ⟨hq, hne⟩ := hlive j q hq
    obtain ⟨hk, hpid⟩ := hs.known j q hq
    exact ⟨hk, List.mem_filter.mpr ⟨hpid, decide_eq_true hne⟩⟩
  · exact hs.names j k q r (hlive j q hq).1 (hlive k r hr).1

theorem Serves.step (hs : Inv c s) {a : Action} (h : Clients.step s a = some t) : Serves c s t := by
  cases a with
  | spawn pid =>
    obtain rfl := Option.some.inj h
    refine .idle { hs with known := fun j q hq => ?_ } rfl
    exact ⟨(hs.known j q hq).1, List.mem_cons_of_mem _ (hs.known j q hq).2⟩
  | crash pid => exact .crash hs pid h
  | construct i name pid isWriter x =>
    by_cases hcan : pid ∈ s.procs ∧ (s.providers i).isNone
    · exact .construct hs hcan.1 (Option.isNone_iff_eq_none.mp hcan.2) h
    · unfold Clients.step at h
      dsimp only at h
      rw [if_neg hcan] at h
      cases h
  | registerJournal i x =>
    cases hp : s.providers i with
    | none => simp [Clients.step, hp] at h
    | some p =>
      cases hpending : p.pending with
      | none => exact .registerJournal hs hp hpending h
      | some _ => simp [Clients.step, hp, hpending] at h
  | fillSlot i dir jname =>
    cases hp : s.providers i with
    | none => simp [Clients.step, hp] at h
    | some p =>
      cases hpending : p.pending with
      | none => simp [Clients.step, hp, hpending] at h
      | some idx => exact .fillSlot hs hp hpending h
  | getPage i idx pageNum addr =>
    cases hp : s.providers i with
    | none => simp [Clients.step, hp] at h
    | some p => exact .getPage hs hp h
  | exitClient i x =>
    cases hp : s.providers i with
    | none => simp [Clients.step, hp] at h
    | some p => exact .exitClient hs hp h
  | getSocketDiff input x =>
    obtain ⟨data, hx⟩ := getSocketDiff_spec s.engine s.data input x
    unfold Clients.step at h
    dsimp only at h
    rw [hx] at h
    obtain rfl := Option.some.inj h
    exact .idle { hs with } rfl
  | pidCheck =>
    obtain rfl := Option.some.inj h
    have happly : s.engine.apply (.pidCheck s.dead) = some (s.engine.pidCheck s.dead) := rfl
    refine .own hs happly (fun n hn => by cases hn) fun j q info hq hpid => ?_
    exact decide_eq_false (not_not.mpr (hpid ▸ (hs.known j q hq).2))
  | tempPage addr =>
    unfold Clients.step at h
    dsimp only at h
    split at h
    · cases h
    · rename_i hfresh
      obtain rfl := Option.some.inj h
      have happly : s.engine.apply (.tempPage addr) = some (s.engine.tempPage addr) := if_neg hfresh
      exact .own hs happly (fun n hn => by cases hn) fun _ _ _ _ _ => trivial
  | disk files folders =>
    obtain rfl := Option.some.inj h
    have happly : s.engine.apply (.disk files folders) =
        some { s.engine with os := { s.engine.os with files := files, folders := folders } } := rfl
    exact .own hs happly (fun n hn => by cases hn) fun _ _ _ _ _ => trivial

/-- **The system of clients refines the page service.** -/
theorem refines (c : Site) : Refines (clients c) (service c.toSetup) State.engine (Inv c) where
  init := ⟨Inv.start c, rfl⟩
  invariant _ _ _ hs h := (Serves.step hs h).inv
  step _ _ _ hs h := (Serves.step hs h).run

/-! ### The clients are served -/

/-- What a provider that lives has of the engine. -/
structure Served (c : Site) (s : State) : Prop where
  /-- the engine is in a state that the page service can reach -/
  service : ∃ bs, (service c.toSetup).run c.engine bs = some s.engine
  /-- the engine knows every provider, with the slots it has been given -/
  known : ∀ i p, s.providers i = some p → Known s.engine p
  /-- nobody else has the slots, and nobody's slots are in use -/
  apart : ∀ i j p q, s.providers i = some p → s.providers j = some q → i ≠ j → ∀ idx ∈ p.slots, idx ∉ q.slots
  orphans : NoOrphans s.engine
  /-- no provider has found its slot in another state than OCCUPIED -/
  not_failed : s.failed = false
  /-- a provider is constructed unless its name is taken -/
  construct : ∀ i name pid isWriter x, pid ∈ s.procs → s.providers i = none →
    ∃ t, step s (.construct i name pid isWriter x) = some t ∧
      ((t.providers i).isSome ↔ s.engine.clientJournals.lookup name.text = none)
  /-- a provider gets a slot for its journal unless there is no free one -/
  registerJournal : ∀ i p x, s.providers i = some p → p.pending = none →
    ∃ t, step s (.registerJournal i x) = some t ∧
      t.providers i = some { p with pending := s.engine.freeIdx }
  /-- a provider that says good bye leaves its name and its slots to others -/
  exitClient : ∀ i p x, s.providers i = some p →
    ∃ t, step s (.exitClient i x) = some t ∧ t.engine.clientJournals.lookup p.name.text = none ∧
      ∀ idx ∈ p.slots, (t.engine.comm idx).status = .raw

theorem Inv.construct (hs : Inv c s) (hpid : pid ∈ s.procs) (hi : s.providers i = none) (name : ClientName)
    (isWriter : Bool) (x : Exchange) : ∃ t, Clients.step s (.construct i name pid isWriter x) = some t ∧
      ((t.providers i).isSome ↔ s.engine.clientJournals.lookup name.text = none) := by
  obtain ⟨data, hx⟩ := step_construct hs hpid hi name isWriter x
  refine ⟨_, hx, ?_⟩
  dsimp only
  cases hl : s.engine.clientJournals.lookup name.text with
  | some info => simp [hi]
  | none => simp [State.setProvider]

theorem Inv.registerJournal (hs : Inv c s) (hp : s.providers i = some p) (hpending : p.pending = none)
    (x : Exchange) : ∃ t, Clients.step s (.registerJournal i x) = some t ∧
      t.providers i = some { p with pending := s.engine.freeIdx } := by
  obtain ⟨data, hx⟩ := step_registerJournal hp hpending x
  refine ⟨_, hx, ?_⟩
  obtain ⟨info, hl, -⟩ := (hs.known i p hp).1.registered
  dsimp only
  rcases s.engine.regJournal_cases p.name.text with ⟨hidx, hr⟩ | ⟨_, -, hnone, -⟩ | ⟨idx, _, hidx, -, hr⟩
  · rw [hr, hidx]
    show s.providers i = some { p with pending := none }
    rw [← hpending]
    exact hp
  · rw [hl] at hnone
    cases hnone
  · rw [hr, hidx]
    exact Function.update_self ..

theorem Inv.exitClient (hs : Inv c s) (hp : s.providers i = some p) (x : Exchange) :
    ∃ t, Clients.step s (.exitClient i x) = some t ∧ t.engine.clientJournals.lookup p.name.text = none ∧
      ∀ idx ∈ p.slots, (t.engine.comm idx).status = .raw := by
  obtain ⟨data, hx⟩ := step_exitClient hp x
  obtain ⟨info, hl, -, -, hhash, hslots⟩ := (hs.known i p hp).1.registered
  have hcheck : ¬ (true = true ∧ p.hashCode ≠ info.hashCode) := fun h => h.2 hhash.symm
  have hexit := exitClient_some hl hcheck
  refine ⟨_, hx, ?_, fun idx hidx => ?_⟩
  · show (s.engine.exitClient p.name.text p.hashCode true).clientJournals.lookup p.name.text = none
    rw [hexit]
    dsimp only
    rw [AList.lookup_erase]
  · show ((s.engine.exitClient p.name.text p.hashCode true).comm idx).status = .raw
    rw [hexit]
    show ((info.userIndexVec.foldl freeSlot s.engine).comm idx).status = .raw
    rw [foldl_freeSlot_comm, if_pos (hslots ▸ hidx)]

/-- **Clients are served.**  In every run of processes that register, ask, leave and die in any order, the
engine is where the page service could be; it knows every client that lives as the client knows itself,
no two clients share a slot, and an exchange does for the client what it is for. -/
theorem clients_served (c : Site) (as : List Action) : (clients c).Always (Served c) (clients c).init as := by
  refine ((refines c).reachable as).mono ?_
  rintro s ⟨hs, hservice⟩
  exact {
    service := hservice
    known := fun i p hp => (hs.known i p hp).1
    apart := fun _ _ _ _ hp hq hij _ hidx => hs.slots_apart hp hq hij hidx
    orphans := hs.orphans
    not_failed := hs.not_failed
    construct := fun _ name _ isWriter x hpid hi => hs.construct hpid hi name isWriter x
    registerJournal := fun _ _ x hp hpending => hs.registerJournal hp hpending x
    exitClient := fun _ _ x hp => hs.exitClient hp x }

end Yijinjing.Clients

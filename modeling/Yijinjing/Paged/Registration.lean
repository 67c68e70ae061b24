import Yijinjing.Paged.Service

/-!
# Registration

The two tables of clients, `clientJournals` and `pidClient`, agree in every reachable state, so that
`PstPidCheck::go` removes exactly the clients of dead processes.  A slot that is not RAW has an owner as
long as nobody registers a journal under an unknown name: `reg_journal` occupies a slot before it looks
the client up.
-/

namespace Yijinjing.PageEngine

open Lib

variable {e t : PageEngine} {name name' : CStr} {info : PageClientInfo} {pid : Int32} {i : ℕ}

/-! ### The two tables -/

/-- The clients listed under a pid. -/
def clientsOf (e : PageEngine) (pid : Int32) : List CStr := (e.pidClient.lookup pid).getD []

theorem mem_clientsOf :
    name ∈ e.clientsOf pid ↔ ∃ clients, e.pidClient.lookup pid = some clients ∧ name ∈ clients := by
  unfold clientsOf
  cases e.pidClient.lookup pid <;> simp

/-- Every pid lists its clients, each of them once, and no pid an empty list. -/
structure TablesAgree (e : PageEngine) : Prop where
  listed : ∀ name pid, (∃ info, e.clientJournals.lookup name = some info ∧ info.pid = pid) ↔
    ∃ clients, e.pidClient.lookup pid = some clients ∧ name ∈ clients
  once : ∀ name info, e.clientJournals.lookup name = some info →
    (pooled id e.pidClient).count name = 1
  nonempty : ∀ pid clients, e.pidClient.lookup pid = some clients → clients ≠ []

theorem mem_pooled_clients : name ∈ pooled id e.pidClient ↔ ∃ pid, name ∈ e.clientsOf pid := by
  rw [mem_pooled]
  exact exists_congr fun pid => mem_clientsOf.symm

theorem TablesAgree.registered_iff (ht : TablesAgree e) :
    (∃ info, e.clientJournals.lookup name = some info ∧ info.pid = pid) ↔ name ∈ e.clientsOf pid :=
  (ht.listed name pid).trans mem_clientsOf.symm

theorem TablesAgree.nodup (ht : TablesAgree e) : (pooled id e.pidClient).Nodup := by
  refine List.nodup_iff_count_le_one.mpr fun name => ?_
  by_cases hmem : name ∈ pooled id e.pidClient
  · obtain ⟨pid, hpid⟩ := mem_pooled_clients.mp hmem
    obtain ⟨info, hl, -⟩ := ht.registered_iff.mpr hpid
    exact (ht.once name info hl).le
  · rw [List.count_eq_zero_of_not_mem hmem]
    exact Nat.zero_le 1

theorem TablesAgree.of_nodup
    (hl : ∀ name pid, (∃ info, e.clientJournals.lookup name = some info ∧ info.pid = pid) ↔
      name ∈ e.clientsOf pid)
    (hn : (pooled id e.pidClient).Nodup)
    (he : ∀ pid clients, e.pidClient.lookup pid = some clients → clients ≠ []) : TablesAgree e where
  listed name pid := (hl name pid).trans mem_clientsOf
  once name info h :=
    List.count_eq_one_of_mem hn (mem_pooled_clients.mpr ⟨info.pid, (hl name _).mp ⟨info, h, rfl⟩⟩)
  nonempty := he

theorem TablesAgree.start (tempPath commFile : CStr) (os : Os) : TablesAgree (start tempPath commFile os) := by
  refine .of_nodup (fun name pid => ⟨?_, fun h => ?_⟩) List.nodup_nil fun pid clients h => ?_
  · rintro ⟨info, h, -⟩
    cases h
  · cases h
  · cases h

/-- The tables look alike. -/
theorem TablesAgree.congr (ht : TablesAgree e)
    (hc : ∀ name, (t.clientJournals.lookup name).map PageClientInfo.pid =
      (e.clientJournals.lookup name).map PageClientInfo.pid)
    (hp : t.pidClient = e.pidClient) : TablesAgree t := by
  have hreg : ∀ name pid, (∃ info, t.clientJournals.lookup name = some info ∧ info.pid = pid) ↔
      ∃ info, e.clientJournals.lookup name = some info ∧ info.pid = pid := by
    intro name pid
    have h := hc name
    rw [← Option.map_eq_some_iff, ← Option.map_eq_some_iff, h]
  refine .of_nodup (fun name pid => ?_) (hp ▸ ht.nodup) (hp ▸ ht.nonempty)
  rw [hreg, ht.registered_iff]
  unfold clientsOf
  rw [hp]

theorem TablesAgree.keeps (ht : TablesAgree e) (h : Keeps e t) : TablesAgree t :=
  ht.congr (fun name => by rw [h.clientJournals]) h.pidClient

/-! ### Registration and departure in the tables -/

/-- The list of a pid is replaced. -/
theorem clientsOf_insert {p : Int32} {clients : List CStr} (h : t.pidClient = e.pidClient.insert pid clients) :
    t.clientsOf p = if p = pid then clients else e.clientsOf p := by
  unfold clientsOf
  rw [h]
  split
  · rename_i hp
    rw [hp, AList.lookup_insert]
    rfl
  · rename_i hp
    rw [AList.lookup_insert_ne hp]

theorem pooled_clients (e : PageEngine) (pid : Int32) :
    (pooled id e.pidClient).Perm (e.clientsOf pid ++ pooled id (e.pidClient.erase pid)) := by
  unfold clientsOf
  cases h : e.pidClient.lookup pid with
  | none =>
    rw [erase_of_lookup_none h]
    exact List.Perm.refl _
  | some clients => exact pooled_perm h

theorem regClient_tables (pid : Int32) (isWriter : Bool) (nano : Int64)
    (h : e.clientJournals.lookup name = none) :
    (e.regClient name pid isWriter nano).2.pidClient =
        e.pidClient.insert pid (e.clientsOf pid ++ [name]) ∧
      (e.regClient name pid isWriter nano).2.clientJournals = e.clientJournals.insert name
        { userIndexVec := [], pid := pid, hashCode := clientHash name nano pid, isWriting := isWriter } := by
  unfold clientsOf
  constructor
  · simp only [regClient, h, Option.isSome_none, Bool.false_eq_true, if_false]
    cases e.pidClient.lookup pid <;> rfl
  · simp [regClient, h]

theorem TablesAgree.regClient (ht : TablesAgree e) (name : CStr) (pid : Int32) (isWriter : Bool)
    (nano : Int64) : TablesAgree (e.regClient name pid isWriter nano).2 := by
  cases h : e.clientJournals.lookup name with
  | some info =>
    rw [regClient_some h]
    exact ht
  | none =>
    obtain ⟨hp, hc⟩ := regClient_tables pid isWriter nano h
    generalize (e.regClient name pid isWriter nano).2 = t at hp hc
    have hnew : ∀ p, name ∉ e.clientsOf p := by
      intro p hmem
      obtain ⟨info, hl, -⟩ := ht.registered_iff.mpr hmem
      rw [h] at hl
      cases hl
    refine .of_nodup (fun name' p => ?_) ?_ fun p clients hl => ?_
    · rw [clientsOf_insert hp, hc]
      by_cases hn : name' = name
      · subst hn
        rw [AList.lookup_insert]
        by_cases hpid : p = pid
        · subst hpid
          simp
        · simp [hpid, hnew p, Ne.symm hpid]
      · rw [AList.lookup_insert_ne hn, ht.registered_iff]
        by_cases hpid : p = pid
        · subst hpid
          simp [hn]
        · simp [hpid]
    · rw [hp, pooled_insert]
      have hold := (pooled_clients e pid).nodup_iff.mp ht.nodup
      have hfresh : name ∉ e.clientsOf pid ++ pooled id (e.pidClient.erase pid) := by
        rw [← (pooled_clients e pid).mem_iff, mem_pooled_clients]
        exact fun ⟨p, hmem⟩ => hnew p hmem
      rw [id_eq, List.append_assoc]
      exact List.perm_middle.nodup_iff.mpr (List.nodup_cons.mpr ⟨hfresh, hold⟩)
    · rw [hp] at hl
      by_cases hpid : p = pid
      · subst hpid
        rw [AList.lookup_insert] at hl
        obtain rfl := Option.some.inj hl
        simp
      · rw [AList.lookup_insert_ne hpid] at hl
        exact ht.nonempty p clients hl

theorem TablesAgree.regJournal (ht : TablesAgree e) (name : CStr) : TablesAgree (e.regJournal name).2 := by
  rcases e.regJournal_cases name with ⟨-, h⟩ | ⟨idx, -, -, h⟩ | ⟨idx, info, -, hl, h⟩
  · rw [h]
    exact ht
  · rw [h]
    exact ht.congr (fun _ => rfl) rfl
  · rw [h]
    refine ht.congr (fun name' => ?_) rfl
    by_cases hn : name' = name
    · subst hn
      show ((e.clientJournals.insert name' _).lookup name').map _ = _
      rw [AList.lookup_insert, hl]
      rfl
    · show ((e.clientJournals.insert name _).lookup name').map _ = _
      rw [AList.lookup_insert_ne hn]

/-- `pidClient` without the client. -/
theorem erasePidClient_clientsOf {p : Int32} (h : t.pidClient = e.erasePidClient pid name) :
    t.clientsOf p = if p = pid then (e.clientsOf pid).filter fun n => n ≠ name else e.clientsOf p := by
  unfold clientsOf
  rw [h]
  unfold erasePidClient
  dsimp only
  by_cases hp : p = pid
  · subst hp
    rw [if_pos rfl]
    split
    · rename_i hnil
      rw [AList.lookup_erase, hnil]
      rfl
    · rw [AList.lookup_insert]
      rfl
  · rw [if_neg hp]
    split
    · rw [AList.lookup_erase_ne hp]
    · rw [AList.lookup_insert_ne hp]

theorem pooled_erasePidClient (e : PageEngine) (pid : Int32) (name : CStr) :
    pooled id (e.erasePidClient pid name) =
      ((e.clientsOf pid).filter fun n => n ≠ name) ++ pooled id (e.pidClient.erase pid) := by
  unfold erasePidClient clientsOf
  dsimp only
  split
  · rename_i hnil
    rw [hnil]
    rfl
  · exact pooled_insert _

theorem TablesAgree.exit (ht : TablesAgree e) (hl : e.clientJournals.lookup name = some info)
    (hc : t.clientJournals = e.clientJournals.erase name)
    (hp : t.pidClient = e.erasePidClient info.pid name) : TablesAgree t := by
  refine .of_nodup (fun name' p => ?_) ?_ fun p clients h => ?_
  · rw [erasePidClient_clientsOf hp, hc]
    by_cases hn : name' = name
    · subst hn
      rw [AList.lookup_erase]
      constructor
      · rintro ⟨_, h, -⟩
        cases h
      · intro hmem
        split at hmem
        · simp at hmem
        · rename_i hpid
          obtain ⟨info', hl', rfl⟩ := ht.registered_iff.mpr hmem
          obtain rfl := Option.some.inj (hl.symm.trans hl')
          exact absurd rfl hpid
    · rw [AList.lookup_erase_ne hn, ht.registered_iff]
      split
      · rename_i hpid
        simp [hpid, hn]
      · rfl
  · rw [hp, pooled_erasePidClient]
    have hold := (pooled_clients e info.pid).nodup_iff.mp ht.nodup
    exact hold.sublist (List.filter_sublist.append_right _)
  · rw [hp] at h
    unfold erasePidClient at h
    dsimp only at h
    by_cases hpid : p = info.pid
    · subst hpid
      split at h
      · rw [AList.lookup_erase] at h
        cases h
      · rename_i hne
        rw [AList.lookup_insert] at h
        exact Option.some.inj h ▸ hne
    · split at h
      · rw [AList.lookup_erase_ne hpid] at h
        exact ht.nonempty p clients h
      · rw [AList.lookup_insert_ne hpid] at h
        exact ht.nonempty p clients h

theorem TablesAgree.exitClient (ht : TablesAgree e) (name : CStr) (hash : Int32) (check : Bool) :
    TablesAgree (e.exitClient name hash check) := by
  rcases e.exitClient_cases name hash check with h | ⟨info, hl, -, h⟩
  · rw [h]
    exact ht
  · rw [h]
    exact ht.exit hl rfl rfl

theorem TablesAgree.pidCheck (ht : TablesAgree e) (dead : Int32 → Bool) : TablesAgree (e.pidCheck dead) := by
  unfold PageEngine.pidCheck
  induction e.clientsToRemove dead generalizing e with
  | nil => exact ht
  | cons name names ih => exact ih (ht.exitClient name 0 false)

theorem TablesAgree.apply (ht : TablesAgree e) {event : Event} (h : e.apply event = some t) :
    TablesAgree t := by
  cases event with
  | regClient name pid isWriter nano =>
    obtain rfl := Option.some.inj h
    exact ht.regClient name pid isWriter nano
  | regJournal name =>
    obtain rfl := Option.some.inj h
    exact ht.regJournal name
  | hold name idx dir jname =>
    obtain ⟨info, -, -, rfl⟩ := apply_hold h
    exact ht.congr (fun _ => rfl) rfl
  | exitClient name hashCode check =>
    obtain rfl := Option.some.inj h
    exact ht.exitClient name hashCode check
  | pidCheck dead =>
    obtain rfl := Option.some.inj h
    exact ht.pidCheck dead
  | tempPage addr =>
    obtain ⟨-, rfl⟩ := apply_tempPage h
    exact ht.keeps (keeps_tempPage e addr)
  | disk files folders =>
    obtain rfl := Option.some.inj h
    exact ht.keeps (keeps_disk e files folders)

theorem TablesAgree.answer (ht : TablesAgree e) (idx addr : ℕ) : TablesAgree (e.answer idx addr) :=
  ht.congr (fun name => by rw [(keeps_answer e idx addr).clientJournals]; rfl)
    (keeps_answer e idx addr).pidClient

theorem TablesAgree.step (ht : TablesAgree e) {a : Action} (h : e.step a = some t) : TablesAgree t := by
  cases a with
  | event event => exact ht.apply h
  | request idx pageNum addr =>
    obtain ⟨-, -, rfl⟩ := step_request h
    have hask : TablesAgree (e.ask idx pageNum) := ht.congr (fun _ => rfl) rfl
    exact hask.answer idx addr

/-! ### Dead processes -/

/-- `exit_client` for each of the names, without the hash check. -/
def exitAll (e : PageEngine) (names : List CStr) : PageEngine :=
  names.foldl (fun e name => e.exitClient name 0 false) e

theorem exitAll_lookup (names : List CStr) (e : PageEngine) (name : CStr) :
    (e.exitAll names).clientJournals.lookup name =
      if name ∈ names then none else e.clientJournals.lookup name := by
  induction names generalizing e with
  | nil => rfl
  | cons n names ih =>
    show ((e.exitClient n 0 false).exitAll names).clientJournals.lookup name = _
    rw [ih, exitClient_lookup]
    by_cases hn : name = n
    · subst hn
      simp
    · simp [hn]

/-- A slot that none of the clients owns stays as it is. -/
theorem exitAll_comm_kept (names : List CStr) {e : PageEngine}
    (h : ∀ name ∈ names, ∀ info, e.clientJournals.lookup name = some info → i ∉ info.userIndexVec) :
    (e.exitAll names).comm i = e.comm i := by
  induction names generalizing e with
  | nil => rfl
  | cons n names ih =>
    show ((e.exitClient n 0 false).exitAll names).comm i = _
    have hrest : ∀ name ∈ names, ∀ info,
        (e.exitClient n 0 false).clientJournals.lookup name = some info → i ∉ info.userIndexVec := by
      intro name hname info hl
      rw [exitClient_lookup] at hl
      split at hl
      · cases hl
      · exact h name (List.mem_cons_of_mem n hname) info hl
    rw [ih hrest]
    cases hl : e.clientJournals.lookup n with
    | none => rw [exitClient_none hl]
    | some info => rw [exitClient_comm hl, if_neg (h n List.mem_cons_self info hl)]

theorem exitAll_comm_raw (names : List CStr) {e : PageEngine} (h : (e.comm i).status = .raw) :
    ((e.exitAll names).comm i).status = .raw := by
  induction names generalizing e with
  | nil => exact h
  | cons n names ih =>
    refine ih (e := e.exitClient n 0 false) ?_
    cases hl : e.clientJournals.lookup n with
    | none =>
      rw [exitClient_none hl]
      exact h
    | some info =>
      rw [exitClient_comm hl]
      split
      · rfl
      · exact h

/-- The slots of the clients are RAW. -/
theorem exitAll_comm_freed (names : List CStr) {e : PageEngine} (hname : name ∈ names)
    (hl : e.clientJournals.lookup name = some info) (hi : i ∈ info.userIndexVec) :
    ((e.exitAll names).comm i).status = .raw := by
  induction names generalizing e with
  | nil => cases hname
  | cons n names ih =>
    by_cases hn : name = n
    · subst hn
      refine exitAll_comm_raw names (e := e.exitClient name 0 false) ?_
      rw [exitClient_comm hl, if_pos hi]
    · refine ih (e := e.exitClient n 0 false) ((List.mem_cons.mp hname).resolve_left hn) ?_
      rw [exitClient_lookup, if_neg hn]
      exact hl

theorem exitAll_comm (names : List CStr) (e : PageEngine) (i : ℕ) :
    (e.exitAll names).comm i = e.comm i ∨ ((e.exitAll names).comm i).status = .raw := by
  by_cases hleft : ∃ name ∈ names, ∃ info, e.clientJournals.lookup name = some info ∧ i ∈ info.userIndexVec
  · obtain ⟨name, hname, info, hl, hmem⟩ := hleft
    exact .inr (exitAll_comm_freed names hname hl hmem)
  · exact .inl (exitAll_comm_kept names fun name hname info hl hmem => hleft ⟨name, hname, info, hl, hmem⟩)

/-- What can become of a slot in one event. -/
inductive SlotMoves (msg msg' : PageCommMsg) : Prop
  | kept : msg' = msg → SlotMoves msg msg'
  | freed : msg'.status = .raw → SlotMoves msg msg'
  | occupied : msg.status = .raw → msg'.status = .occupied → SlotMoves msg msg'
  | held : msg.status = .occupied → msg'.status = .holding → SlotMoves msg msg'

/-- **One event and one slot**: it is the same, freed, given away or filled in. -/
theorem apply_comm {event : Event} (h : e.apply event = some t) (i : ℕ) : SlotMoves (e.comm i) (t.comm i) := by
  have occupied : ∀ idx, e.freeIdx = some idx → SlotMoves (e.comm i) ((e.occupy idx).comm i) := by
    intro idx hidx
    by_cases hi : i = idx
    · subst hi
      rw [occupy_comm, if_pos rfl]
      exact .occupied (freeIdx_some hidx).2 rfl
    · rw [occupy_comm, if_neg hi]
      exact .kept rfl
  cases event with
  | regClient name pid isWriter nano =>
    obtain rfl := Option.some.inj h
    cases hl : e.clientJournals.lookup name with
    | none => exact .kept (by rw [(regClient_none pid isWriter nano hl).2.1])
    | some info => exact .kept (by rw [regClient_some hl])
  | regJournal name =>
    obtain rfl := Option.some.inj h
    rcases e.regJournal_cases name with ⟨-, hr⟩ | ⟨idx, hidx, -, hr⟩ | ⟨idx, info, hidx, -, hr⟩
    · exact .kept (by rw [hr])
    · rw [hr]
      exact occupied idx hidx
    · rw [hr]
      exact occupied idx hidx
  | hold name idx dir jname =>
    obtain ⟨info, -, ⟨⟨-, hst⟩, -⟩, rfl⟩ := apply_hold h
    by_cases hi : i = idx
    · subst hi
      rw [setMsg_comm_self]
      exact .held hst rfl
    · exact .kept (setMsg_comm_ne e _ hi)
  | exitClient name hash check =>
    obtain rfl := Option.some.inj h
    rcases e.exitClient_cases name hash check with hx | ⟨info, -, -, hx⟩
    · exact .kept (by rw [hx])
    · rw [hx]
      show SlotMoves (e.comm i) ((info.userIndexVec.foldl freeSlot e).comm i)
      rw [foldl_freeSlot_comm]
      split
      · exact .freed rfl
      · exact .kept rfl
  | pidCheck dead =>
    obtain rfl := Option.some.inj h
    exact (exitAll_comm (e.clientsToRemove dead) e i).elim .kept .freed
  | tempPage addr =>
    obtain ⟨-, rfl⟩ := apply_tempPage h
    exact .kept (by rw [(keeps_tempPage e addr).comm])
  | disk files folders =>
    obtain rfl := Option.some.inj h
    exact .kept rfl

/-- The names that `PstPidCheck::go` collects. -/
theorem mem_clientsToRemove (ht : TablesAgree e) (dead : Int32 → Bool) : name ∈ e.clientsToRemove dead ↔
    ∃ info, e.clientJournals.lookup name = some info ∧ dead info.pid = true := by
  unfold clientsToRemove
  simp only [List.mem_flatMap, List.mem_filter, List.mem_mergeSort]
  constructor
  · rintro ⟨pid, ⟨-, hdead⟩, hmem⟩
    obtain ⟨info, hl, rfl⟩ := ht.registered_iff.mpr hmem
    exact ⟨info, hl, hdead⟩
  · rintro ⟨info, hl, hdead⟩
    have hmem : name ∈ e.clientsOf info.pid := ht.registered_iff.mp ⟨info, hl, rfl⟩
    obtain ⟨clients, hp, -⟩ := mem_clientsOf.mp hmem
    exact ⟨info.pid, ⟨AList.lookup_isSome.mp (by rw [hp]; rfl), hdead⟩, hmem⟩

/-- What `PstPidCheck::go` does when `dead` tells which processes are gone: exactly their clients are
removed, and their slots are RAW; the other clients and their slots are as they were. -/
structure Reaped (e : PageEngine) (dead : Int32 → Bool) : Prop where
  clients : ∀ name, (e.pidCheck dead).clientJournals.lookup name =
    (e.clientJournals.lookup name).filter fun info => !dead info.pid
  freed : ∀ name info, e.clientJournals.lookup name = some info → dead info.pid = true →
    ∀ i ∈ info.userIndexVec, ((e.pidCheck dead).comm i).status = .raw
  kept : ∀ name info, e.clientJournals.lookup name = some info → dead info.pid = false →
    ∀ i ∈ info.userIndexVec, (e.pidCheck dead).comm i = e.comm i

theorem Reaped.of_tables (hs : Slots e) (ht : TablesAgree e) (dead : Int32 → Bool) : Reaped e dead where
  clients name := by
    show (e.exitAll (e.clientsToRemove dead)).clientJournals.lookup name = _
    rw [exitAll_lookup]
    have hmem := @mem_clientsToRemove e name ht dead
    cases hl : e.clientJournals.lookup name with
    | none => simp
    | some info =>
      rw [hl] at hmem
      cases hdead : dead info.pid <;> simp [hmem, hdead, Option.filter_some]
  freed name info hl hdead _ hi :=
    exitAll_comm_freed _ ((mem_clientsToRemove ht dead).mpr ⟨info, hl, hdead⟩) hl hi
  kept name info hl hdead i hi := by
    refine exitAll_comm_kept _ fun name' hname' info' hl' hi' => ?_
    obtain rfl := hs.owner_unique hl hl' hi hi'
    obtain ⟨info'', hl'', hdead'⟩ := (mem_clientsToRemove ht dead).mp hname'
    obtain rfl := Option.some.inj (hl.symm.trans hl'')
    rw [hdead] at hdead'
    cases hdead'

/-- **The tables of clients agree in every reachable state, and in every reachable state
`PstPidCheck::go` removes the clients of dead processes, and nothing else.** -/
theorem tables_agree (c : Setup) (as : List Action) :
    (service c).Always (fun e => TablesAgree e ∧ ∀ dead, Reaped e dead) c.engine as :=
  System.always_of_step (I := fun e => Slots e ∧ TablesAgree e)
    (fun _ _ _ hi h => ⟨hi.1.step h, hi.2.step h⟩)
    (fun _ hi => ⟨hi.2, Reaped.of_tables hi.1 hi.2⟩) as ⟨Slots.start, TablesAgree.start ..⟩

/-! ### Slots without an owner -/

/-- Every slot in use is listed by a client. -/
def NoOrphans (e : PageEngine) : Prop :=
  ∀ i < maxCommUserNumber, (e.comm i).status ≠ .raw → i ∈ e.owned

/-- The step does not register a journal for a client that is not there, or finds no free slot. -/
def KnownClient (e : PageEngine) (a : Action) : Prop :=
  ∀ name, a = .event (.regJournal name) → e.freeIdx = none ∨ (e.clientJournals.lookup name).isSome

theorem NoOrphans.setMsg (ho : NoOrphans e) {msg : PageCommMsg} {idx : ℕ} (hidx : idx ∈ e.owned) :
    NoOrphans (e.setMsg idx msg) := by
  intro i hi hraw
  by_cases h : i = idx
  · subst h
    exact hidx
  · rw [setMsg_comm_ne e msg h] at hraw
    exact ho i hi hraw

theorem NoOrphans.of_perm (ho : NoOrphans e) (hp : t.owned.Perm e.owned) (hc : t.comm = e.comm) :
    NoOrphans t := by
  intro i hi hraw
  rw [hc] at hraw
  exact hp.mem_iff.mpr (ho i hi hraw)

theorem NoOrphans.keeps (ho : NoOrphans e) (h : Keeps e t) : NoOrphans t :=
  ho.of_perm (h.owned_eq ▸ List.Perm.refl _) h.comm

theorem NoOrphans.exitClient (ho : NoOrphans e) (name : CStr) (hash : Int32) (check : Bool) :
    NoOrphans (e.exitClient name hash check) := by
  rcases e.exitClient_cases name hash check with h | ⟨info, hl, -, h⟩
  · rw [h]
    exact ho
  · rw [h]
    intro i hi hraw
    have hcomm := foldl_freeSlot_comm info.userIndexVec e i
    dsimp only at hraw
    rw [hcomm] at hraw
    split at hraw
    · exact absurd rfl hraw
    · rename_i hnot
      have hp : e.owned.Perm _ := pooled_perm hl
      exact (List.mem_append.mp (hp.mem_iff.mp (ho i hi hraw))).resolve_left hnot

theorem NoOrphans.pidCheck (ho : NoOrphans e) (dead : Int32 → Bool) : NoOrphans (e.pidCheck dead) := by
  unfold PageEngine.pidCheck
  induction e.clientsToRemove dead generalizing e with
  | nil => exact ho
  | cons name names ih => exact ih (ho.exitClient name 0 false)

/-- `reg_journal` leaves no orphan exactly when it does not fail on the client. -/
theorem NoOrphans.regJournal_iff (hs : Slots e) (ho : NoOrphans e) (name : CStr) :
    NoOrphans (e.regJournal name).2 ↔ e.freeIdx = none ∨ (e.clientJournals.lookup name).isSome := by
  rcases e.regJournal_cases name with ⟨hf, h⟩ | ⟨idx, hf, hl, h⟩ | ⟨idx, info, hf, hl, h⟩
  · rw [h]
    exact ⟨fun _ => .inl hf, fun _ => ho⟩
  · rw [h, hf, hl]
    obtain ⟨hlt, hraw⟩ := freeIdx_some hf
    constructor
    · intro ho'
      refine absurd (ho' idx hlt ?_) (hs.not_mem_of_raw hraw)
      show ((e.occupy idx).comm idx).status ≠ .raw
      rw [occupy_comm, if_pos rfl]
      exact CommStatus.noConfusion
    · rintro (h | h) <;> cases h
  · rw [h, hl]
    refine ⟨fun _ => .inr rfl, fun _ i hi hraw => ?_⟩
    refine (owned_insert_journal idx hl).mem_iff.mpr ?_
    dsimp only at hraw
    rw [occupy_comm] at hraw
    by_cases hidx : i = idx
    · exact List.mem_cons.mpr (.inl hidx)
    · rw [if_neg hidx] at hraw
      exact List.mem_cons_of_mem idx (ho i hi hraw)

theorem NoOrphans.step_iff (hs : Slots e) (ho : NoOrphans e) {a : Action} (h : e.step a = some t) :
    NoOrphans t ↔ KnownClient e a := by
  have known : (∀ name, a ≠ .event (.regJournal name)) → KnownClient e a :=
    fun hne name ha => absurd ha (hne name)
  cases a with
  | event event =>
    cases event with
    | regJournal name =>
      obtain rfl := Option.some.inj h
      rw [ho.regJournal_iff hs]
      refine ⟨fun hk name' ha => ?_, fun hk => hk name rfl⟩
      injection ha with ha
      injection ha with ha
      exact ha ▸ hk
    | regClient name pid isWriter nano =>
      obtain rfl := Option.some.inj h
      refine iff_of_true ?_ (known fun _ => by simp)
      cases hl : e.clientJournals.lookup name with
      | none =>
        obtain ⟨hp, hc, -⟩ := regClient_none pid isWriter nano hl
        exact ho.of_perm hp hc
      | some info =>
        rw [regClient_some hl]
        exact ho
    | hold name idx dir jname =>
      obtain ⟨info, hl, hcan, rfl⟩ := apply_hold h
      exact iff_of_true (ho.setMsg (mem_owned.mpr ⟨name, info, hl, hcan.1.1⟩)) (known fun _ => by simp)
    | exitClient name hashCode check =>
      obtain rfl := Option.some.inj h
      exact iff_of_true (ho.exitClient name hashCode check) (known fun _ => by simp)
    | pidCheck dead =>
      obtain rfl := Option.some.inj h
      exact iff_of_true (ho.pidCheck dead) (known fun _ => by simp)
    | tempPage addr =>
      obtain ⟨-, rfl⟩ := apply_tempPage h
      exact iff_of_true (ho.keeps (keeps_tempPage e addr)) (known fun _ => by simp)
    | disk files folders =>
      obtain rfl := Option.some.inj h
      exact iff_of_true (ho.keeps (keeps_disk e files folders)) (known fun _ => by simp)
  | request idx pageNum addr =>
    obtain ⟨hcan, -, rfl⟩ := step_request h
    refine iff_of_true ?_ (known fun _ => by simp)
    have hask : NoOrphans (e.ask idx pageNum) := ho.setMsg hcan.1
    exact (hask.setMsg hcan.1).keeps (keeps_answer (e.ask idx pageNum) idx addr)

/-- **No slot is left without an owner, all along a run, exactly when no step of the run registers a
journal for a client that is not there while a slot is free.** -/
theorem no_orphans_iff (c : Setup) (as : List Action) (hrun : ((service c).run c.engine as).isSome) :
    (service c).Always NoOrphans c.engine as ↔ (service c).EachStep KnownClient c.engine as :=
  System.always_iff_eachStep (I := Slots) (fun _ _ _ hs h => hs.step h)
    (fun _ _ _ hs ho h => ho.step_iff hs h) as Slots.start (fun _ _ hraw => absurd rfl hraw) hrun

theorem no_orphans_iff_pair : (service .bare).Always NoOrphans Setup.bare.engine
      [.event (.regClient ['a'] 7 false 0), .event (.regJournal ['a'])] ↔
    (service .bare).EachStep KnownClient Setup.bare.engine
      [.event (.regClient ['a'] 7 false 0), .event (.regJournal ['a'])] :=
  no_orphans_iff .bare _ rfl

/-- A client that is not registered registers a journal. -/
theorem orphan_left :
    ¬ (service .bare).Always NoOrphans Setup.bare.engine [.event (.regJournal ['a'])] := by
  intro h
  have hfree : Setup.bare.engine.freeIdx = some 0 := freeIdx_of_raw_zero rfl
  have ho : NoOrphans (Setup.bare.engine.regJournal ['a']).2 := (h.2 _ rfl).at_start
  rcases (h.at_start.regJournal_iff Slots.start ['a']).mp ho with hnone | hsome
  · cases hfree.symm.trans hnone
  · cases hsome

end Yijinjing.PageEngine

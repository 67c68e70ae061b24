import Yijinjing.Lib.Transition
import Yijinjing.Journal.PageCommStruct

/-!
# The handshake on one slot

A client in `getPage` and the comm thread in its section of `start_comm`, on one slot, with every store
and every read of the slot a step of its own.  The comm thread stores the status before it reads
`page_num` for `last_page_num`: a client that sees the status may by then have stored the next page
number.  As long as it has not stored another one, every page that was granted is released once before
the next request is answered.
-/

namespace Yijinjing.Handshake

open Lib

inductive Call where
  | release (pageNum : Int16)
  | initiate (pageNum : Int16) (status : CommStatus)
  deriving DecidableEq

/-- Where the client is in `getPage`. -/
inductive ClientPc where
  | idle
  /-- `page_num` is stored -/
  | numbered
  /-- the status is stored, and read until it changes -/
  | spinning
  deriving DecidableEq

inductive ServerPc where
  /-- read the status -/
  | look
  /-- read `last_page_num` and `page_num` -/
  | check
  /-- `curPage = msg->page_num` -/
  | save
  /-- `msg->page_num = msg->last_page_num` -/
  | swap (curPage : Int16)
  | release (curPage : Int16)
  /-- `msg->page_num = curPage` -/
  | restore (curPage : Int16)
  /-- call `initiate_page` -/
  | initiate
  /-- store the status -/
  | publish (status : CommStatus)
  /-- read `page_num` for `last_page_num` -/
  | load
  /-- store `last_page_num` -/
  | record (pageNum : Int16)
  deriving DecidableEq

structure State where
  slot : PageCommMsg
  client : ClientPc
  server : ServerPc
  /-- the calls, the latest first -/
  log : List Call

/-- A slot that a client holds and has not asked with. -/
def init (slot : PageCommMsg) : State := ⟨{ slot with status := .holding, lastPageNum := 0 }, .idle, .look, []⟩

inductive Action
  | storeNum (pageNum : Int16)
  | storeStatus
  | spin
  /-- a step of the comm thread; `answer` is what `initiate_page` returns, if it is called -/
  | server (answer : CommStatus)

/-- The statuses that `initiate_page` returns. -/
def answers : List CommStatus := [.allocated, .moreThanOneWrite, .nonExist, .cannotRenameFromTemp]

def serve (s : State) (answer : CommStatus) : Option State :=
  match s.server with
  | .look => some (if s.slot.status = .requesting then { s with server := .check } else s)
  | .check =>
    some (if 0 < s.slot.lastPageNum ∧ s.slot.lastPageNum ≠ s.slot.pageNum then { s with server := .save }
      else { s with server := .initiate })
  | .save => some { s with server := .swap s.slot.pageNum }
  | .swap cur => some { s with slot := { s.slot with pageNum := s.slot.lastPageNum }, server := .release cur }
  | .release cur => some { s with log := .release s.slot.pageNum :: s.log, server := .restore cur }
  | .restore cur => some { s with slot := { s.slot with pageNum := cur }, server := .initiate }
  | .initiate =>
    if answer ∈ answers then
      some { s with log := .initiate s.slot.pageNum answer :: s.log, server := .publish answer }
    else none
  | .publish status => some { s with slot := { s.slot with status := status }, server := .load }
  | .load => some { s with server := .record s.slot.pageNum }
  | .record num => some { s with slot := { s.slot with lastPageNum := num }, server := .look }

def step (s : State) : Action → Option State
  | .storeNum pageNum =>
    if s.client = .idle then some { s with slot := { s.slot with pageNum := pageNum }, client := .numbered }
    else none
  | .storeStatus =>
    if s.client = .numbered then
      some { s with slot := { s.slot with status := .requesting }, client := .spinning }
    else none
  | .spin =>
    if s.client = .spinning then
      some (if s.slot.status = .requesting then s else { s with client := .idle })
    else none
  | .server answer => serve s answer

/-- **One slot, store by store.** -/
def handshake (slot : PageCommMsg) : System State Action := ⟨init slot, step⟩

variable {s t : State} {log : List Call} {p q : Int16} {status : CommStatus}

/-! ### Calls -/

/-- The page of the last request that was handled, 0 before the first. -/
def lastHandled : List Call → Int16
  | [] => 0
  | .release _ :: log => lastHandled log
  | .initiate p _ :: _ => p

def released : List Call → Bool
  | .release _ :: _ => true
  | _ => false

/-- A request is preceded by the release of the page handled before it, if that is another page, and by
nothing else. -/
def Good : List Call → Prop
  | [] => True
  | .release p :: log => Good log ∧ released log = false ∧ p = lastHandled log
  | .initiate q _ :: log => Good log ∧ released log = decide (0 < lastHandled log ∧ lastHandled log ≠ q)

theorem Good.of_append {new old : List Call} (h : Good (new ++ old)) : Good old := by
  induction new with
  | nil => exact h
  | cons c new ih =>
    cases c with
    | release p => exact ih h.1
    | initiate p st => exact ih h.1

/-- Between a grant and the next answer for another page the page is released once. -/
theorem Good.release_once {mid old : List Call}
    (h : Good (.initiate q status :: mid ++ .initiate p .allocated :: old))
    (hmid : ∀ c ∈ mid, ∃ r, c = .release r) (hp : 0 < p) (hne : p ≠ q) : mid = [.release p] := by
  rw [List.cons_append] at h
  obtain ⟨hgood, hrel⟩ := h
  cases mid with
  | nil =>
    have hlast : lastHandled ([] ++ .initiate p .allocated :: old) = p := rfl
    rw [hlast, decide_eq_true ⟨hp, hne⟩] at hrel
    cases hrel
  | cons c mid =>
    obtain ⟨r, rfl⟩ := hmid c List.mem_cons_self
    obtain ⟨-, hrel', hr⟩ := hgood
    cases mid with
    | nil => rw [hr]; rfl
    | cons c' mid =>
      obtain ⟨r', rfl⟩ := hmid c' (List.mem_cons_of_mem _ List.mem_cons_self)
      cases hrel'

/-! ### The invariant -/

/-- The client waits while the comm thread handles its request. -/
def Waits (s : State) : Prop := s.client = .spinning ∧ s.slot.status = .requesting

def Fits (s : State) : ServerPc → Prop
  | .look => released s.log = false ∧ s.slot.lastPageNum = lastHandled s.log
  | .check => Waits s ∧ released s.log = false ∧ s.slot.lastPageNum = lastHandled s.log
  | .save => Waits s ∧ released s.log = false ∧ s.slot.lastPageNum = lastHandled s.log ∧
      0 < s.slot.lastPageNum ∧ s.slot.lastPageNum ≠ s.slot.pageNum
  | .swap cur => Waits s ∧ released s.log = false ∧ s.slot.lastPageNum = lastHandled s.log ∧
      0 < s.slot.lastPageNum ∧ s.slot.lastPageNum ≠ cur
  | .release cur => Waits s ∧ released s.log = false ∧ s.slot.lastPageNum = lastHandled s.log ∧
      0 < s.slot.lastPageNum ∧ s.slot.lastPageNum ≠ cur ∧ s.slot.pageNum = s.slot.lastPageNum
  | .restore cur => Waits s ∧ released s.log = true ∧ 0 < lastHandled s.log ∧ lastHandled s.log ≠ cur
  | .initiate => Waits s ∧
      released s.log = decide (0 < lastHandled s.log ∧ lastHandled s.log ≠ s.slot.pageNum)
  | .publish status => Waits s ∧ status ∈ answers ∧ released s.log = false ∧ lastHandled s.log = s.slot.pageNum
  | .load => released s.log = false ∧ lastHandled s.log = s.slot.pageNum
  | .record num => released s.log = false ∧ lastHandled s.log = num

structure Inv (s : State) : Prop where
  good : Good s.log
  /-- only a client that spins has a request -/
  asks : s.slot.status = .requesting → s.client = .spinning
  fits : Fits s s.server

/-- The client does not store another page number between the store of the status and the read of
`page_num` for `last_page_num`. -/
def Prompt (s : State) (a : Action) : Prop :=
  ∀ pageNum, a = .storeNum pageNum → s.server = .load → pageNum = s.slot.pageNum

instance decidablePrompt (s : State) : ∀ a, Decidable (Prompt s a)
  | .storeNum pageNum =>
    decidable_of_iff (s.server = .load → pageNum = s.slot.pageNum)
      ⟨fun h _ ha hl => Action.storeNum.inj ha ▸ h hl, fun h => h pageNum rfl⟩
  | .storeStatus | .spin | .server _ => isTrue fun _ ha => Action.noConfusion ha

/-- The comm thread is not in the middle of a request. -/
theorem Inv.between (hi : Inv s) (h : ¬ Waits s) :
    s.server = .look ∨ s.server = .load ∨ ∃ num, s.server = .record num := by
  have hf := hi.fits
  cases hs : s.server with
  | look => exact .inl rfl
  | load => exact .inr (.inl rfl)
  | record num => exact .inr (.inr ⟨num, rfl⟩)
  | check | save | swap | release | restore | initiate | publish =>
    rw [hs] at hf
    exact absurd hf.1 h

theorem Inv.serve (hi : Inv s) {answer : CommStatus} (h : serve s answer = some t) : Inv t := by
  have hf := hi.fits
  unfold Handshake.serve at h
  cases hs : s.server with
  | look =>
    rw [hs] at h hf
    obtain rfl := Option.some.inj h
    split
    · rename_i hst
      exact ⟨hi.good, hi.asks, ⟨hi.asks hst, hst⟩, hf⟩
    · exact hi
  | check =>
    rw [hs] at h hf
    obtain rfl := Option.some.inj h
    obtain ⟨hw, hrel, hlast⟩ := hf
    split
    · rename_i hd
      exact ⟨hi.good, hi.asks, hw, hrel, hlast, hd⟩
    · rename_i hd
      refine ⟨hi.good, hi.asks, hw, ?_⟩
      rw [hlast] at hd
      exact hrel.trans (decide_eq_false hd).symm
  | save =>
    rw [hs] at h hf
    obtain rfl := Option.some.inj h
    exact ⟨hi.good, hi.asks, hf⟩
  | swap cur =>
    rw [hs] at h hf
    obtain rfl := Option.some.inj h
    obtain ⟨hw, hrel, hlast, hpos, hne⟩ := hf
    exact ⟨hi.good, hi.asks, hw, hrel, hlast, hpos, hne, rfl⟩
  | release cur =>
    rw [hs] at h hf
    obtain rfl := Option.some.inj h
    obtain ⟨hw, hrel, hlast, hpos, hne, hnum⟩ := hf
    rw [hlast] at hpos hne hnum
    exact ⟨⟨hi.good, hrel, hnum⟩, hi.asks, hw, rfl, hpos, hne⟩
  | restore cur =>
    rw [hs] at h hf
    obtain rfl := Option.some.inj h
    obtain ⟨hw, hrel, hpos, hne⟩ := hf
    exact ⟨hi.good, hi.asks, hw, hrel.trans (decide_eq_true ⟨hpos, hne⟩).symm⟩
  | initiate =>
    rw [hs] at h hf
    dsimp only at h
    split at h
    · rename_i hans
      obtain rfl := Option.some.inj h
      exact ⟨⟨hi.good, hf.2⟩, hi.asks, hf.1, hans, rfl, rfl⟩
    · cases h
  | publish status =>
    rw [hs] at h hf
    obtain rfl := Option.some.inj h
    obtain ⟨hw, hans, hrel, hlast⟩ := hf
    exact ⟨hi.good, fun _ => hw.1, hrel, hlast⟩
  | load =>
    rw [hs] at h hf
    obtain rfl := Option.some.inj h
    exact ⟨hi.good, hi.asks, hf⟩
  | record num =>
    rw [hs] at h hf
    obtain rfl := Option.some.inj h
    exact ⟨hi.good, hi.asks, hf.1, hf.2.symm⟩

theorem Inv.step (hi : Inv s) {a : Action} (hp : Prompt s a) (h : step s a = some t) : Inv t := by
  cases a with
  | storeNum pageNum =>
    unfold Handshake.step at h
    dsimp only at h
    split at h
    · rename_i hidle
      obtain rfl := Option.some.inj h
      have hnot : ¬ Waits s := fun hw => by cases hidle.symm.trans hw.1
      refine ⟨hi.good, fun hst => ?_, ?_⟩
      · have hspin := hi.asks hst
        rw [hidle] at hspin
        cases hspin
      · have hf := hi.fits
        rcases hi.between hnot with hs | hs | ⟨num, hs⟩
        · rw [hs] at hf
          simp only [hs]
          exact hf
        · have hnum := hp pageNum rfl hs
          rw [hs] at hf
          simp only [hs]
          exact ⟨hf.1, hf.2.trans hnum.symm⟩
        · rw [hs] at hf
          simp only [hs]
          exact hf
    · cases h
  | storeStatus =>
    unfold Handshake.step at h
    dsimp only at h
    split at h
    · rename_i hnum
      obtain rfl := Option.some.inj h
      have hnot : ¬ Waits s := fun hw => by cases hnum.symm.trans hw.1
      refine ⟨hi.good, fun _ => rfl, ?_⟩
      have hf := hi.fits
      rcases hi.between hnot with hs | hs | ⟨num, hs⟩ <;> rw [hs] at hf <;> simp only [hs] <;> exact hf
    · cases h
  | spin =>
    unfold Handshake.step at h
    dsimp only at h
    split at h
    · obtain rfl := Option.some.inj h
      split
      · exact hi
      · rename_i hst
        have hnot : ¬ Waits s := fun hw => hst hw.2
        refine ⟨hi.good, fun hst' => absurd hst' hst, ?_⟩
        have hf := hi.fits
        rcases hi.between hnot with hs | hs | ⟨num, hs⟩ <;> rw [hs] at hf <;> simp only [hs] <;> exact hf
    · cases h
  | server answer => exact hi.serve h

/-! ### Releases -/

/-- Between the grant of a page and the next answer, if that is for another page, the page is released
exactly once, and a request is handled with the page of the last handled request in `last_page_num`. -/
structure ReleasesOnce (s : State) : Prop where
  once : ∀ new mid old p q status,
    s.log = new ++ (.initiate q status :: mid ++ .initiate p .allocated :: old) →
      (∀ c ∈ mid, ∃ r, c = .release r) → 0 < p → 0 < q → p ≠ q → mid = [.release p]
  last : s.server = .check → s.slot.lastPageNum = lastHandled s.log

theorem Inv.releasesOnce (hi : Inv s) : ReleasesOnce s where
  once new mid old p q status hlog hmid hp _ hne := by
    have hgood := hi.good
    rw [hlog] at hgood
    exact hgood.of_append.release_once hmid hp hne
  last hs := by
    have hf := hi.fits
    rw [hs] at hf
    exact hf.2.2

/-- **No release is lost** in a run in which the client stores no other page number between the store of
the status and the read of `page_num` for `last_page_num`. -/
theorem releases_once (slot : PageCommMsg) (as : List Action)
    (hp : (handshake slot).EachStep Prompt (init slot) as) :
    (handshake slot).Always ReleasesOnce (init slot) as :=
  System.always_of_eachStep (I := Inv) (fun _ _ _ hi hp h => hi.step hp h) (fun _ hi => hi.releasesOnce) as
    ⟨trivial, fun h => (by cases h), rfl, rfl⟩ hp

/-- Two pages are asked for and granted. -/
def twoGrants : List Action :=
  [.storeNum 1, .storeStatus] ++ List.replicate 6 (.server .allocated) ++ [.spin, .storeNum 2, .storeStatus] ++
    List.replicate 10 (.server .allocated) ++ [.spin]

theorem releases_once_twoGrants :
    ((handshake .zero).run (init .zero) twoGrants).map State.log =
      some [.initiate 2 .allocated, .release 1, .initiate 1 .allocated] ∧
    (handshake .zero).Always ReleasesOnce (init .zero) twoGrants :=
  ⟨by decide +kernel, releases_once .zero twoGrants (by decide +kernel)⟩

/-- The client sees the grant of page 1 and stores the number of page 2 before the comm thread has read
`page_num`: page 1 is never released. -/
theorem release_lost : ¬ (handshake .zero).Always ReleasesOnce (init .zero)
    [.storeNum 1, .storeStatus, .server .allocated, .server .allocated, .server .allocated,
      .server .allocated, .spin, .storeNum 2, .server .allocated, .server .allocated, .storeStatus,
      .server .allocated, .server .allocated, .server .allocated] := by
  refine System.not_always_of_test
    (fun s => decide (s.log = [.initiate 2 .allocated, .initiate 1 .allocated])) (by decide) fun s hs hr => ?_
  have hlog := of_decide_eq_true hs
  have hmid :=
    hr.once [] [] [] 1 2 .allocated hlog (fun _ h => (by cases h)) (by decide) (by decide) (by decide)
  cases hmid

end Yijinjing.Handshake

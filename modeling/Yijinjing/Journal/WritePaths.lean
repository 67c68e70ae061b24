import Yijinjing.Journal.Footprint
import Yijinjing.Journal.Calls

/-!
# The two write paths

`write_frame` copies a payload into the frame it locates; `locateFrame` and `passFrame` let the user
fill the frame in place.  From any state of the process and the files the two leave the same files, the
same cursor and the same clock, or throw the same error (`outcome_writeInPlace`), so that any mix of
them writes the same journal (`write_paths_agree`).

The two make their stores in different orders, so the states are compared without the record of the
effects.
-/

namespace Yijinjing

open Lib Prog

/-! ### The two paths -/

/-- The state of a process without the record of its effects. -/
def Env.forget (s : Env) : Env := { s with trace := [] }

/-- What a call comes to, whatever it returns. -/
def outcome {α : Type} (x : JournalM α) (s : Env) : Except Error Unit × Env :=
  match x.exec s with
  | (.ok _, t) => (.ok (), t.forget)
  | (.error e, t) => (.error e, t.forget)

namespace JournalWriter

/-- A record to be written. -/
structure Write where
  data : List UInt8
  msgType : Int16
  lastFlag : UInt8

variable (h : Host)

/-- The second write path: `locateFrame`, the user's copy of the payload, `passFrame`. -/
def writeInPlace (w : Write) : JournalM Unit := do
  let frame ← locateFrame h
  copyData frame w.data
  passFrame h frame w.data.length w.msgType w.lastFlag

/-- Write the record on one of the two paths. -/
def writeVia (inPlace : Bool) (w : Write) : Env → Except Error Unit × Env :=
  if inPlace then outcome (writeInPlace h w) else outcome (writeFrame h w.data w.msgType w.lastFlag)

/-- Write the records, the `k`-th in place if `inPlace k`, until a call throws. -/
def writeAll : (ℕ → Bool) → List Write → Env → Except Error Unit × Env
  | _, [], s => (.ok (), s)
  | inPlace, w :: ws, s =>
    match writeVia h (inPlace 0) w s with
    | (.ok _, t) => writeAll (fun k => inPlace (k + 1)) ws t
    | (.error e, t) => (.error e, t)

end JournalWriter

/-! ### The stores of the two paths -/

theorem Files.update_update (fs : Files) (n : Int16) (f g : Mem → Mem) :
    (fs.update n f).update n g = fs.update n fun b => g (f b) := by
  unfold Files.update
  cases hb : fs.lookup n with
  | none => simp [hb]
  | some b => simp [AList.lookup_insert, AList.insert_insert]

/-- Stores into one frame are one change of its page. -/
theorem execAll_frame (fs : Files) (n : Int16) (a : ℕ) (s : FrameStore) (ss : List FrameStore) :
    execAll fs ((s :: ss).map (.frame n a)) =
      fs.update n fun b => (s :: ss).foldl (FrameStore.exec a) b := by
  induction ss generalizing fs s with
  | nil => rfl
  | cons s' ss ih =>
    have e : execAll fs ((s :: s' :: ss).map (.frame n a)) =
        execAll (fs.update n (s.exec a)) ((s' :: ss).map (.frame n a)) := rfl
    rw [e, ih, Files.update_update]
    rfl

namespace Frame

/-- The fields as `write_frame` stores them. -/
def written (autoHash : Bool) (data : List UInt8) (nano : Int64) (msgType : Int16) (lastFlag : UInt8) :
    List FrameStore :=
  setMsgType msgType ++ setLastFlag lastFlag ++ setData autoHash data ++ setNano nano

/-- The fields as they are stored in place: the hash is that of the data area. -/
def writtenInPlace (autoHash : Bool) (b : Mem) (a : ℕ) (data : List UInt8) (nano : Int64) (msgType : Int16)
    (lastFlag : UInt8) : List FrameStore :=
  (setNano nano ++ [.data data]) ++
    (setMsgType msgType ++ setLastFlag lastFlag ++ setDataLength autoHash b a data.length)

variable {autoHash : Bool} {data : List UInt8} {nano : Int64} {msgType : Int16} {lastFlag : UInt8}
  {a : ℕ} {b : Mem}

/-- The same stores in another order, if the data area holds the data. -/
theorem written_perm (hdata : b.load (a + basicFrameHeaderLength) data.length = data) :
    (written autoHash data nano msgType lastFlag).Perm
      (writtenInPlace autoHash b a data nano msgType lastFlag) := by
  have hhash : setDataLength autoHash b a data.length =
      setFrameLength data.length ++ autoHashCode autoHash data := by rw [setDataLength, hdata]
  have hnano : (written autoHash data nano msgType lastFlag).Perm
      (.nano nano :: ([.msgType msgType, .lastFlag lastFlag] ++
        .data data :: (setFrameLength data.length ++ autoHashCode autoHash data))) :=
    List.perm_append_singleton _ _
  refine hnano.trans ?_
  rw [writtenInPlace, hhash]
  exact List.Perm.cons _ List.perm_middle

theorem written_offsets (autoHash : Bool) (data : List UInt8) (nano : Int64) (msgType : Int16)
    (lastFlag : UInt8) :
    (∀ s ∈ written autoHash data nano msgType lastFlag, s.offset.isSome) ∧
      ((written autoHash data nano msgType lastFlag).map FrameStore.offset).Nodup := by
  cases autoHash <;>
    simp [written, setMsgType, setLastFlag, setData, setNano, setFrameLength, autoHashCode,
      FrameStore.offset, basicFrameHeaderLength]

/-- Both paths leave the same bytes in the page. -/
theorem foldl_writtenInPlace (autoHash : Bool) (a : ℕ) (b : Mem) (data : List UInt8) (nano : Int64)
    (msgType : Int16) (lastFlag : UInt8) :
    (writtenInPlace autoHash ((setNano nano ++ [FrameStore.data data]).foldl (FrameStore.exec a) b) a data
        nano msgType lastFlag).foldl (FrameStore.exec a) b =
      (written autoHash data nano msgType lastFlag).foldl (FrameStore.exec a) b := by
  have hdata : ((setNano nano ++ [FrameStore.data data]).foldl (FrameStore.exec a) b).load
      (a + basicFrameHeaderLength) data.length = data :=
    Mem.load_store ((FrameStore.nano nano).exec a b) (a + basicFrameHeaderLength) data
  obtain ⟨hfields, hnodup⟩ := written_offsets autoHash data nano msgType lastFlag
  exact (foldl_exec_perm (written_perm hdata) hfields hnodup a b).symm

end Frame

/-- The page files are the same after either path. -/
theorem execAll_writtenInPlace (autoHash : Bool) (fs : Files) (n : Int16) (a : ℕ) (data : List UInt8)
    (nano : Int64) (msgType : Int16) (lastFlag : UInt8) :
    execAll fs ((Frame.writtenInPlace autoHash
        ((execAll fs ((Frame.setNano nano ++ [FrameStore.data data]).map (.frame n a))).buffer n) a data nano
        msgType lastFlag ++ Frame.setStatusWritten).map (.frame n a)) =
      execAll fs ((Frame.written autoHash data nano msgType lastFlag ++ Frame.setStatusWritten).map
        (.frame n a)) := by
  have hbuffer : ∀ b, fs.lookup n = some b →
      (execAll fs ((Frame.setNano nano ++ [FrameStore.data data]).map (.frame n a))).buffer n =
        (Frame.setNano nano ++ [FrameStore.data data]).foldl (FrameStore.exec a) b := fun b hb => by
    refine Files.buffer_of_lookup ?_
    rw [lookup_execAll_frame, hb]
    rfl
  generalize hc : (execAll fs ((Frame.setNano nano ++ [FrameStore.data data]).map (.frame n a))).buffer n = c
  rw [hc] at hbuffer
  have hplace := execAll_frame fs n a (.nano nano) ([.data data] ++ (Frame.setMsgType msgType ++
    Frame.setLastFlag lastFlag ++ Frame.setDataLength autoHash c a data.length) ++ Frame.setStatusWritten)
  have hwrite := execAll_frame fs n a (.msgType msgType) (Frame.setLastFlag lastFlag ++
    Frame.setData autoHash data ++ Frame.setNano nano ++ Frame.setStatusWritten)
  refine hplace.trans (Eq.trans ?_ hwrite.symm)
  unfold Files.update
  cases hb : fs.lookup n with
  | none => rfl
  | some b =>
    have hfold := Frame.foldl_writtenInPlace autoHash a b data nano msgType lastFlag
    rw [← hbuffer b hb] at hfold
    have key := congrArg (Frame.setStatusWritten.foldl (FrameStore.exec a)) hfold
    rw [← List.foldl_append, ← List.foldl_append] at key
    exact congrArg (fs.insert n) key

/-! ### One record -/

section Paths

variable {h : Host} {s t : Env} {p : Page} {a : ℕ} {e : Error}

theorem outcome_of_runs {α : Type} {x : JournalM α} {c : α} (hx : Runs x s c t) :
    outcome x s = (.ok (), t.forget) := by
  have hexec : x.exec s = (.ok c, t) := hx
  unfold outcome
  rw [hexec]

theorem outcome_of_throws {α : Type} {x : JournalM α} (hx : Throws x s e t) :
    outcome x s = (.error e, t.forget) := by
  have hexec : x.exec s = (.error e, t) := hx
  unfold outcome
  rw [hexec]

/-- A frame is stored by these effects, and passed. -/
def Env.stored (t : Env) (p : Page) (es : List Effect) : Env :=
  (t.emitAll es).setCurPage (some (p.passFrame ((t.emitAll es).files.buffer p.pageNum)))

/-- Effects that leave the same files leave the same state. -/
theorem Env.forget_stored (p : Page) {es fs : List Effect} (h : execAll t.files es = execAll t.files fs) :
    (t.stored p es).forget = (t.stored p fs).forget := by
  have hfiles : (t.emitAll es).files = (t.emitAll fs).files := h
  simp only [Env.stored, Env.forget, Env.setCurPage, hfiles]
  rfl

namespace JournalWriter

variable (w : Write)

theorem writeFrame_runs (hloc : Runs (frameAddress h) { s with tick := s.tick + 1 } a t)
    (hcur : t.journal.curPage = some p) :
    Runs (writeFrame h w.data w.msgType w.lastFlag) s (h.clock s.tick)
      (t.stored p ((Frame.written h.autoHash w.data (h.clock s.tick) w.msgType w.lastFlag ++
        Frame.setStatusWritten).map (.frame p.pageNum a))) := by
  let es := (Frame.written h.autoHash w.data (h.clock s.tick) w.msgType w.lastFlag ++
    Frame.setStatusWritten).map (Effect.frame p.pageNum a)
  have hpass : Runs Journal.passFrame (t.emitAll es) ⟨⟩ (t.stored p es) :=
    journal_passFrame_runs (s := t.emitAll es) hcur
  unfold writeFrame
  refine (getNanoTime_runs s).bind (hloc.bind ((curPageNum_runs hcur).bind ?_))
  exact (emit_runs es t).bind (hpass.bind (Runs.pure _ _))

theorem writeInPlace_runs (hloc : Runs (frameAddress h) { s with tick := s.tick + 1 } a t)
    (hcur : t.journal.curPage = some p) :
    Runs (writeInPlace h w) s ⟨⟩
      (t.stored p ((Frame.writtenInPlace h.autoHash ((execAll t.files
        ((Frame.setNano (h.clock s.tick) ++ [FrameStore.data w.data]).map (.frame p.pageNum a))).buffer p.pageNum)
          a w.data (h.clock s.tick) w.msgType w.lastFlag ++ Frame.setStatusWritten).map
            (.frame p.pageNum a))) := by
  let u := t.emitAll ((Frame.setNano (h.clock s.tick)).map (.frame p.pageNum a))
  let v := u.emitAll [.frame p.pageNum a (.data w.data)]
  let es := (Frame.setMsgType w.msgType ++ Frame.setLastFlag w.lastFlag ++
    Frame.setDataLength h.autoHash (v.files.buffer p.pageNum) a w.data.length ++
      Frame.setStatusWritten).map (Effect.frame p.pageNum a)
  have hlocate : Runs (locateFrame h) s a u := by
    unfold locateFrame
    refine (getNanoTime_runs s).bind (hloc.bind ((curPageNum_runs hcur).bind ?_))
    exact (emit_runs _ t).bind (Runs.pure _ _)
  have hcopy : Runs (copyData a w.data) u ⟨⟩ v := by
    unfold copyData
    exact (curPageNum_runs (s := u) hcur).bind (emit_runs _ u)
  have hpass : Runs (passFrame h a w.data.length w.msgType w.lastFlag) v ⟨⟩ (v.stored p es) := by
    unfold passFrame
    refine (curPageNum_runs (s := v) hcur).bind ((Runs.get v).bind ?_)
    exact (emit_runs es v).bind (journal_passFrame_runs (s := v.emitAll es) hcur)
  have hall : v.emitAll es = t.emitAll ((Frame.setNano (h.clock s.tick)).map (.frame p.pageNum a) ++
      [.frame p.pageNum a (.data w.data)] ++ es) := by
    rw [← Env.emitAll_emitAll, ← Env.emitAll_emitAll]
  have hes : (Frame.setNano (h.clock s.tick)).map (.frame p.pageNum a) ++
      [.frame p.pageNum a (.data w.data)] ++ es = (Frame.writtenInPlace h.autoHash (v.files.buffer p.pageNum)
        a w.data (h.clock s.tick) w.msgType w.lastFlag ++ Frame.setStatusWritten).map
          (Effect.frame p.pageNum a) := by
    simp only [es, Frame.writtenInPlace, List.map_append, List.append_assoc, List.map_cons, List.map_nil]
  have hstored : v.stored p es = t.stored p ((Frame.setNano (h.clock s.tick)).map (.frame p.pageNum a) ++
      [.frame p.pageNum a (.data w.data)] ++ es) := by
    unfold Env.stored
    rw [hall]
  rw [hstored, hes] at hpass
  exact hlocate.bind (hcopy.bind hpass)

/-- **The two write paths agree**, on every state. -/
theorem outcome_writeInPlace (h : Host) (w : Write) (s : Env) :
    outcome (writeInPlace h w) s = outcome (writeFrame h w.data w.msgType w.lastFlag) s := by
  rcases hexec : (frameAddress h).exec { s with tick := s.tick + 1 } with ⟨e | a, t⟩
  · have hloc : Throws (frameAddress h) { s with tick := s.tick + 1 } e t := hexec
    have hwrite : Throws (writeFrame h w.data w.msgType w.lastFlag) s e t := by
      unfold writeFrame
      exact (getNanoTime_runs s).bind_throws (hloc.bind _)
    have hplace : Throws (writeInPlace h w) s e t := by
      unfold writeInPlace locateFrame
      exact ((getNanoTime_runs s).bind_throws (hloc.bind _)).bind _
    rw [outcome_of_throws hwrite, outcome_of_throws hplace]
  · have hloc : Runs (frameAddress h) { s with tick := s.tick + 1 } a t := hexec
    cases hcur : t.journal.curPage with
    | none =>
      have hwrite : Throws (writeFrame h w.data w.msgType w.lastFlag) s .nullPage t := by
        unfold writeFrame
        exact (getNanoTime_runs s).bind_throws (hloc.bind_throws ((curPageNum_throws hcur).bind _))
      have hplace : Throws (writeInPlace h w) s .nullPage t := by
        unfold writeInPlace locateFrame
        exact ((getNanoTime_runs s).bind_throws
          (hloc.bind_throws ((curPageNum_throws hcur).bind _))).bind _
      rw [outcome_of_throws hwrite, outcome_of_throws hplace]
    | some p =>
      rw [outcome_of_runs (writeInPlace_runs w hloc hcur), outcome_of_runs (writeFrame_runs w hloc hcur),
        Env.forget_stored p (execAll_writtenInPlace h.autoHash t.files p.pageNum a w.data (h.clock s.tick)
          w.msgType w.lastFlag)]

/-! ### Sequences of records -/

theorem writeAll_eq (h : Host) (ws : List Write) (inPlace inPlace' : ℕ → Bool) (s : Env) :
    writeAll h inPlace ws s = writeAll h inPlace' ws s := by
  induction ws generalizing inPlace inPlace' s with
  | nil => rfl
  | cons w ws ih =>
    have hone : ∀ b, writeVia h b w s = outcome (writeFrame h w.data w.msgType w.lastFlag) s := fun b => by
      cases b with
      | false => rfl
      | true => exact outcome_writeInPlace h w s
    rw [writeAll, writeAll, hone, hone]
    rcases outcome (writeFrame h w.data w.msgType w.lastFlag) s with ⟨e | -, t⟩
    · rfl
    · exact ih _ _ t

/-- **The two write paths are equivalent**: from every state a record leaves the same files and the same
cursor on both, and so does every sequence of records on any mix of them. -/
theorem write_paths_agree (h : Host) :
    (∀ w s, outcome (writeInPlace h w) s = outcome (writeFrame h w.data w.msgType w.lastFlag) s) ∧
      ∀ ws inPlace inPlace' s, writeAll h inPlace ws s = writeAll h inPlace' ws s :=
  ⟨outcome_writeInPlace h, writeAll_eq h⟩

end JournalWriter

end Paths

end Yijinjing

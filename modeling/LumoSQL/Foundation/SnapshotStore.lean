import Mathlib.Data.List.Nodup
import Mathlib.Logic.Relation

/-!
# Snapshot stores with nested write transactions

A snapshot store holds one durable content and the transactions open on it. A read transaction
sees the durable content of the moment it began. Write transactions run one at a time and nest: a
child starts from what its parent sees, an abort discards a transaction together with everything
opened inside it, a commit of a child hands what it sees to its parent, and the commit of the
outermost one makes it durable. `SnapshotStore` records the open write transactions as a stack of
frames, innermost first, and carries the proof that the handles in use are distinct and already
issued, so that no operation has to assume it.

`outer` cuts the stack below a handle, and the rules `commit_top`, `commit_outermost`, `abort_top`
and `abort_outermost` say what ending the innermost and the outermost frame does. `Reaches` follows
the links from a transaction to the ones it is nested in, up to the outermost one (`reaches_last`);
an abort ends exactly the transactions that reach the aborted one (`live_abort_iff`). `All` is a
property of every content in the store, which every operation keeps that writes nothing against it,
and `Updates` is a series of updates of one kind: what the kind keeps, every content keeps
(`Updates.all`), and so does the content of one transaction (`Updates.found`).
-/

namespace LumoSQL.Foundation

open List Option

structure Frame (σ : Type*) where
  id : ℕ
  content : σ

/-- The frames outside the transaction `t`, in a stack written innermost first. -/
def outer {σ : Type*} (t : ℕ) : List (Frame σ) → List (Frame σ)
  | [] => []
  | frame :: rest => if frame.id = t then rest else outer t rest

/-- A durable content with the transactions open on it. The write transactions form a stack,
innermost first; handles are distinct and below the next one to issue. -/
structure SnapshotStore (σ : Type*) where
  durable : σ
  readers : List (Frame σ)
  writer : List (Frame σ)
  next : ℕ
  distinct : ((writer ++ readers).map Frame.id).Nodup
  issued : ∀ frame ∈ writer ++ readers, frame.id < next

section

variable {σ : Type*}

theorem outer_sublist (t : ℕ) (frames : List (Frame σ)) : (outer t frames).Sublist frames := by
  induction frames with
  | nil => exact List.Sublist.refl _
  | cons frame rest ih =>
    unfold outer
    split_ifs with hid
    · exact sublist_cons_self _ _
    · exact ih.trans (sublist_cons_self _ _)

@[simp] theorem outer_top (frame : Frame σ) (rest : List (Frame σ)) :
    outer frame.id (frame :: rest) = rest := by
  simp [outer]

/-- A handle that is not in the stack has nothing outside it. -/
theorem outer_of_not_mem {t : ℕ} {frames : List (Frame σ)} (hmem : t ∉ frames.map Frame.id) :
    outer t frames = [] := by
  induction frames with
  | nil => rfl
  | cons frame rest ih =>
    simp only [map_cons, mem_cons, not_or] at hmem
    rw [outer, if_neg (fun h ↦ hmem.1 h.symm)]
    exact ih hmem.2

variable (inner : List (Frame σ))

/-- Assumes: distinct handles. Outside a frame lie the frames behind it. -/
theorem outer_split (frame : Frame σ) (rest : List (Frame σ))
    (hdistinct : ((inner ++ frame :: rest).map Frame.id).Nodup) :
    outer frame.id (inner ++ frame :: rest) = rest := by
  induction inner with
  | nil => simp
  | cons first others ih =>
    have hsplit : first.id ∉ ((others ++ frame :: rest).map Frame.id) ∧
        ((others ++ frame :: rest).map Frame.id).Nodup := by
      simpa using hdistinct
    have hne : first.id ≠ frame.id := by
      intro heq
      exact hsplit.1 (heq ▸ mem_map_of_mem (by simp))
    simp only [cons_append, outer, if_neg hne]
    exact ih hsplit.2

/-- Assumes: distinct handles. Nothing lies outside the outermost frame. -/
theorem outer_outermost (last : Frame σ) (hdistinct : ((inner ++ [last]).map Frame.id).Nodup) :
    outer last.id (inner ++ [last]) = [] :=
  outer_split inner last [] hdistinct

end

namespace SnapshotStore

variable {σ : Type*}

def idle (content : σ) : SnapshotStore σ := ⟨content, [], [], 0, by simp, by simp⟩

def frame? (store : SnapshotStore σ) (t : ℕ) : Option (Frame σ) :=
  (store.writer ++ store.readers).find? fun frame ↦ frame.id = t

def Live (store : SnapshotStore σ) (t : ℕ) : Prop :=
  ∃ frame ∈ store.writer ++ store.readers, frame.id = t

def parent (store : SnapshotStore σ) (t : ℕ) : Option ℕ :=
  (outer t store.writer).head?.map Frame.id

/-- The second transaction is reached from the first by links to parents. -/
def Reaches (store : SnapshotStore σ) : ℕ → ℕ → Prop :=
  Relation.ReflTransGen fun t u ↦ store.parent t = some u

/-- The content the innermost write transaction sees, the durable one when there is none. -/
def tip (store : SnapshotStore σ) : σ :=
  match store.writer with
  | [] => store.durable
  | top :: _ => top.content

variable (content : σ) (store : SnapshotStore σ) (t : ℕ) (update : σ → σ) (frames : List (Frame σ))

theorem next_not_mem : store.next ∉ (store.writer ++ store.readers).map Frame.id := by
  intro hmem
  obtain ⟨frame, hframe, hid⟩ := mem_map.mp hmem
  exact absurd (store.issued frame hframe) (by omega)

/-- An open transaction is found by its handle. -/
theorem frame?_of_mem {store : SnapshotStore σ} {frame : Frame σ}
    (hframe : frame ∈ store.writer ++ store.readers) : store.frame? frame.id = some frame := by
  have hdistinct := store.distinct
  unfold frame?
  generalize store.writer ++ store.readers = frames at hframe hdistinct
  induction frames with
  | nil => cases hframe
  | cons head tail ih =>
    rw [map_cons, nodup_cons] at hdistinct
    rcases mem_cons.mp hframe with rfl | htail
    · simp
    · have hne : head.id ≠ frame.id := fun heq ↦ hdistinct.1 (heq ▸ mem_map_of_mem htail)
      rw [find?_cons, decide_eq_false hne]
      exact ih htail hdistinct.2

/-- Begins a read transaction on the durable content; its handle is `store.next`. -/
def beginRead (store : SnapshotStore σ) : SnapshotStore σ where
  durable := store.durable
  readers := ⟨store.next, store.durable⟩ :: store.readers
  writer := store.writer
  next := store.next + 1
  distinct := by
    have hperm : (store.writer ++ (⟨store.next, store.durable⟩ :: store.readers)).Perm
        (⟨store.next, store.durable⟩ :: (store.writer ++ store.readers)) := List.perm_middle
    exact ((hperm.map Frame.id).nodup_iff).mpr
      (List.nodup_cons.mpr ⟨store.next_not_mem, store.distinct⟩)
  issued := by
    intro frame hframe
    rcases List.mem_append.mp hframe with hwriter | hreader
    · exact Nat.lt_succ_of_lt (store.issued frame (List.mem_append_left _ hwriter))
    · rcases List.mem_cons.mp hreader with rfl | hold
      · exact Nat.lt_succ_self _
      · exact Nat.lt_succ_of_lt (store.issued frame (List.mem_append_right _ hold))

/-- Begins a write transaction inside the innermost one, or an outermost one when none is open;
it starts from what the innermost one sees and its handle is `store.next`. -/
def push (store : SnapshotStore σ) : SnapshotStore σ where
  durable := store.durable
  readers := store.readers
  writer := ⟨store.next, store.tip⟩ :: store.writer
  next := store.next + 1
  distinct := List.nodup_cons.mpr ⟨store.next_not_mem, store.distinct⟩
  issued := by
    intro frame hframe
    rcases List.mem_cons.mp hframe with rfl | hold
    · exact Nat.lt_succ_self _
    · exact Nat.lt_succ_of_lt (store.issued frame hold)

/-- Keeps the durable content and the readers and cuts the write stack down to `frames`, whose
handles stood in the old stack. -/
def cut (store : SnapshotStore σ) (content : σ) (frames : List (Frame σ))
    (hframes : (frames.map Frame.id).Sublist (store.writer.map Frame.id)) :
    SnapshotStore σ where
  durable := content
  readers := store.readers
  writer := frames
  next := store.next
  distinct := by
    have hsub : ((frames ++ store.readers).map Frame.id).Sublist
        ((store.writer ++ store.readers).map Frame.id) := by
      rw [List.map_append, List.map_append]
      exact hframes.append (List.Sublist.refl _)
    exact store.distinct.sublist hsub
  issued := by
    intro frame hframe
    rcases List.mem_append.mp hframe with hcut | hreader
    · obtain ⟨old, hold, hid⟩ :=
        List.mem_map.mp (hframes.subset (List.mem_map_of_mem (f := Frame.id) hcut))
      exact hid ▸ store.issued old (List.mem_append_left _ hold)
    · exact store.issued frame (List.mem_append_right _ hreader)

/-- Ends the read transaction `t`. -/
def dropReader (store : SnapshotStore σ) (t : ℕ) : SnapshotStore σ where
  durable := store.durable
  readers := store.readers.filter fun frame ↦ frame.id ≠ t
  writer := store.writer
  next := store.next
  distinct := by
    have hsub : ((store.writer ++ store.readers.filter fun frame ↦ frame.id ≠ t).map
        Frame.id).Sublist ((store.writer ++ store.readers).map Frame.id) :=
      ((List.Sublist.refl _).append List.filter_sublist).map _
    exact store.distinct.sublist hsub
  issued := by
    intro frame hframe
    rcases List.mem_append.mp hframe with hwriter | hreader
    · exact store.issued frame (List.mem_append_left _ hwriter)
    · exact store.issued frame (List.mem_append_right _ (List.mem_filter.mp hreader).1)

def setTop (content : σ) (frames : List (Frame σ)) : List (Frame σ) :=
  frames.modifyHead fun frame ↦ ⟨frame.id, content⟩

@[simp] theorem setTop_nil : setTop content [] = [] := rfl

@[simp] theorem setTop_cons (frame : Frame σ) (rest : List (Frame σ)) :
    setTop content (frame :: rest) = ⟨frame.id, content⟩ :: rest := rfl

@[simp] theorem map_id_setTop : (setTop content frames).map Frame.id = frames.map Frame.id := by
  cases frames <;> rfl

def modifyTop (store : SnapshotStore σ) (update : σ → σ) : SnapshotStore σ :=
  store.cut store.durable (setTop (update store.tip) store.writer) (by simp)

/-- Runs an update on the content of the frame with the handle `t`. -/
def updateFrame (t : ℕ) (update : σ → σ) (frame : Frame σ) : Frame σ :=
  if frame.id = t then ⟨frame.id, update frame.content⟩ else frame

@[simp] theorem updateFrame_id (frame : Frame σ) : (updateFrame t update frame).id = frame.id := by
  unfold updateFrame
  split_ifs <;> rfl

theorem map_id_updateFrame :
    (frames.map (updateFrame t update)).map Frame.id = frames.map Frame.id := by
  rw [List.map_map]
  exact map_congr_left fun frame _ ↦ updateFrame_id t update frame

/-- Runs an update on what the write transaction `t` sees, also when it is not the innermost. -/
def modifyAt (store : SnapshotStore σ) (t : ℕ) (update : σ → σ) : SnapshotStore σ :=
  store.cut store.durable (store.writer.map (updateFrame t update)) (by rw [map_id_updateFrame])

/-- Commits the transaction `t`, with everything opened inside it: what the innermost one sees
goes to the transaction around `t`, and becomes durable when there is none. -/
def commit (store : SnapshotStore σ) (t : ℕ) : SnapshotStore σ :=
  if t ∈ store.writer.map Frame.id then
    store.cut (if (outer t store.writer).isEmpty then store.tip else store.durable)
      (setTop store.tip (outer t store.writer)) (by
        rw [map_id_setTop]
        exact (outer_sublist t store.writer).map _)
  else store.dropReader t

/-- Aborts the transaction `t`, with everything opened inside it. -/
def abort (store : SnapshotStore σ) (t : ℕ) : SnapshotStore σ :=
  if t ∈ store.writer.map Frame.id then
    store.cut store.durable (outer t store.writer) ((outer_sublist t store.writer).map _)
  else store.dropReader t

/-! ### What one operation changes -/

theorem abort_next : (store.abort t).next = store.next := by
  unfold abort
  split_ifs <;> rfl

theorem commit_next : (store.commit t).next = store.next := by
  unfold commit
  split_ifs <;> rfl

@[simp] theorem beginRead_durable : store.beginRead.durable = store.durable := rfl

@[simp] theorem beginRead_writer : store.beginRead.writer = store.writer := rfl

@[simp] theorem beginRead_readers :
    store.beginRead.readers = ⟨store.next, store.durable⟩ :: store.readers := rfl

@[simp] theorem push_durable : store.push.durable = store.durable := rfl

@[simp] theorem push_readers : store.push.readers = store.readers := rfl

@[simp] theorem push_writer : store.push.writer = ⟨store.next, store.tip⟩ :: store.writer := rfl

@[simp] theorem push_tip : store.push.tip = store.tip := rfl

@[simp] theorem modifyTop_durable : (store.modifyTop update).durable = store.durable := rfl

@[simp] theorem modifyTop_readers : (store.modifyTop update).readers = store.readers := rfl

@[simp] theorem modifyTop_writer :
    (store.modifyTop update).writer = setTop (update store.tip) store.writer := rfl

@[simp] theorem modifyAt_durable : (store.modifyAt t update).durable = store.durable := rfl

@[simp] theorem modifyAt_readers : (store.modifyAt t update).readers = store.readers := rfl

@[simp] theorem modifyAt_writer :
    (store.modifyAt t update).writer = store.writer.map (updateFrame t update) := rfl

/-- Two updates of one transaction are one update. -/
theorem modifyAt_modifyAt (first second : σ → σ) :
    (store.modifyAt t first).modifyAt t second = store.modifyAt t (second ∘ first) := by
  have hframe : updateFrame t second ∘ updateFrame t first = updateFrame t (second ∘ first) := by
    funext frame
    by_cases hid : frame.id = t
    · simp [updateFrame, hid]
    · simp [updateFrame, hid]
  simp [modifyAt, cut, List.map_map, hframe]

theorem modifyAt_eq_self {t : ℕ} {update : σ → σ}
    (hfixed : ∀ frame ∈ store.writer, frame.id = t → update frame.content = frame.content) :
    store.modifyAt t update = store := by
  have hmap : store.writer.map (updateFrame t update) = store.writer := by
    refine (map_congr_left fun frame hframe ↦ ?_).trans (map_id _)
    unfold updateFrame
    split_ifs with hid
    · rw [hfixed frame hframe hid]
      rfl
    · rfl
  simp [modifyAt, cut, hmap]

@[simp] theorem dropReader_durable : (store.dropReader t).durable = store.durable := rfl

@[simp] theorem dropReader_writer : (store.dropReader t).writer = store.writer := rfl

@[simp] theorem dropReader_readers :
    (store.dropReader t).readers = store.readers.filter fun frame ↦ frame.id ≠ t := rfl

section

variable {store : SnapshotStore σ} {top : Frame σ} {rest : List (Frame σ)}

theorem tip_of_writer (hwriter : store.writer = top :: rest) : store.tip = top.content := by
  simp [tip, hwriter]

theorem live_top (hwriter : store.writer = top :: rest) : store.Live top.id :=
  ⟨top, by simp [hwriter], rfl⟩

theorem tip_of_idle (hwriter : store.writer = []) : store.tip = store.durable := by
  simp [tip, hwriter]

theorem parent_top (hwriter : store.writer = top :: rest) :
    store.parent top.id = rest.head?.map Frame.id := by
  simp [parent, hwriter]

/-- The commit of the innermost frame hands its content to the frame around it, and makes it
durable when there is none. -/
theorem commit_top (hwriter : store.writer = top :: rest) :
    (store.commit top.id).writer = setTop top.content rest ∧
      (store.commit top.id).durable = (if rest.isEmpty then top.content else store.durable) ∧
      (store.commit top.id).readers = store.readers := by
  have hmem : top.id ∈ store.writer.map Frame.id := by simp [hwriter]
  have htip := tip_of_writer hwriter
  rw [commit, if_pos hmem]
  simp [cut, htip, hwriter]

/-- The abort of the innermost frame uncovers the frame around it. -/
theorem abort_top (hwriter : store.writer = top :: rest) :
    (store.abort top.id).writer = rest ∧ (store.abort top.id).durable = store.durable ∧
      (store.abort top.id).readers = store.readers := by
  have hmem : top.id ∈ store.writer.map Frame.id := by simp [hwriter]
  rw [abort, if_pos hmem]
  simp [cut, hwriter]

end

section

variable {store : SnapshotStore σ} {inner : List (Frame σ)} {last : Frame σ}

theorem writer_distinct (store : SnapshotStore σ) : (store.writer.map Frame.id).Nodup := by
  have hall := store.distinct
  rw [map_append] at hall
  exact hall.of_append_left

variable {rest : List (Frame σ)}

/-- An update of the innermost write transaction. -/
theorem modifyAt_top {top : Frame σ} (hwriter : store.writer = top :: rest) (update : σ → σ) :
    (store.modifyAt top.id update).writer = ⟨top.id, update top.content⟩ :: rest := by
  have hdistinct := store.writer_distinct
  rw [hwriter, map_cons, nodup_cons] at hdistinct
  have hrest : rest.map (updateFrame top.id update) = rest := by
    refine (map_congr_left fun frame hframe ↦ ?_).trans (map_id _)
    have hother : frame.id ≠ top.id := fun hid ↦ hdistinct.1 (hid ▸ mem_map_of_mem hframe)
    exact if_neg hother
  rw [modifyAt_writer, hwriter, map_cons, hrest, updateFrame, if_pos rfl]

/-- Only the outermost frame has the outermost handle. -/
theorem eq_nil_of_last {top next : Frame σ} (hwriter : store.writer = top :: next :: rest)
    (hends : store.writer = inner ++ [last]) (hid : last.id = next.id) : rest = [] := by
  rcases eq_nil_or_concat rest with hnil | ⟨middle, bottom, rfl⟩
  · exact hnil
  · have hends' : (top :: next :: middle) ++ [bottom] = inner ++ [last] := by
      simpa using hwriter.symm.trans hends
    have hbottom : bottom = last := by simpa using (append_inj' hends' rfl).2
    have hdistinct := store.writer_distinct
    rw [hwriter, hbottom] at hdistinct
    simp [hid] at hdistinct

/-- The commit of the outermost frame makes durable what the innermost one sees. -/
theorem commit_outermost (hwriter : store.writer = inner ++ [last]) :
    (store.commit last.id).writer = [] ∧ (store.commit last.id).durable = store.tip ∧
      (store.commit last.id).readers = store.readers := by
  have hmem : last.id ∈ store.writer.map Frame.id := by simp [hwriter]
  have houter : outer last.id store.writer = [] := by
    rw [hwriter]
    exact outer_outermost inner last (hwriter ▸ store.writer_distinct)
  rw [commit, if_pos hmem]
  simp [cut, houter]

/-- The abort of the outermost frame ends every write transaction. -/
theorem abort_outermost (hwriter : store.writer = inner ++ [last]) :
    (store.abort last.id).writer = [] ∧ (store.abort last.id).durable = store.durable ∧
      (store.abort last.id).readers = store.readers := by
  have hmem : last.id ∈ store.writer.map Frame.id := by simp [hwriter]
  have houter : outer last.id store.writer = [] := by
    rw [hwriter]
    exact outer_outermost inner last (hwriter ▸ store.writer_distinct)
  rw [abort, if_pos hmem]
  simp [cut, houter]

end

variable {reader : Frame σ} {rest : List (Frame σ)} {store : SnapshotStore σ} {t u : ℕ}

/-- A reader's handle belongs to no write transaction. -/
theorem reader_not_writer (hreader : reader ∈ store.readers) :
    reader.id ∉ store.writer.map Frame.id := by
  have hall := store.distinct
  rw [map_append] at hall
  intro hmem
  exact (disjoint_of_nodup_append hall) hmem (mem_map_of_mem hreader)

theorem parent_reader (hreader : reader ∈ store.readers) : store.parent reader.id = none := by
  simp [parent, outer_of_not_mem (reader_not_writer hreader)]

/-- From a read transaction only itself is reached. -/
theorem Reaches.of_reader {t : ℕ} (hreader : reader ∈ store.readers)
    (hreaches : store.Reaches reader.id t) : t = reader.id := by
  rcases Relation.ReflTransGen.cases_head hreaches with heq | ⟨u, hparent, _⟩
  · exact heq.symm
  · rw [parent_reader hreader] at hparent
    cases hparent

/-- From a write transaction only write transactions are reached. -/
theorem Reaches.mem_writer (hreaches : store.Reaches t u) (ht : t ∈ store.writer.map Frame.id) :
    u ∈ store.writer.map Frame.id := by
  induction hreaches with
  | refl => exact ht
  | @tail v w _ hparent _ =>
    obtain ⟨frame, hframe, rfl⟩ := map_eq_some_iff.mp hparent
    exact mem_map_of_mem ((outer_sublist v store.writer).subset (mem_of_mem_head? hframe))

/-- The outermost write transaction is reached from every one of them. -/
theorem reaches_last (inner : List (Frame σ)) {frame last : Frame σ}
    (hwriter : store.writer = inner ++ frame :: rest) (hlast : store.writer.getLast? = some last) :
    store.Reaches frame.id last.id := by
  induction rest generalizing inner frame with
  | nil =>
    rw [hwriter, getLast?_concat] at hlast
    rw [some.inj hlast]
    exact Relation.ReflTransGen.refl
  | cons next rest ih =>
    have hparent : store.parent frame.id = some next.id := by
      rw [parent, hwriter, outer_split inner frame (next :: rest) (hwriter ▸ store.writer_distinct)]
      rfl
    exact Relation.ReflTransGen.head hparent (ih (inner ++ [frame]) (by simp [hwriter]))

theorem abort_reader (hreader : reader ∈ store.readers) :
    store.abort reader.id = store.dropReader reader.id := by
  rw [abort, if_neg (reader_not_writer hreader)]

/-- A write transaction reaches the ones around it. -/
theorem reaches_outer (inner middle : List (Frame σ)) {frame target : Frame σ}
    (hwriter : store.writer = inner ++ frame :: (middle ++ target :: rest)) :
    store.Reaches frame.id target.id := by
  induction middle generalizing inner frame with
  | nil =>
    refine Relation.ReflTransGen.single ?_
    rw [parent, hwriter, outer_split inner frame _ (hwriter ▸ store.writer_distinct)]
    rfl
  | cons next middle ih =>
    have hparent : store.parent frame.id = some next.id := by
      rw [parent, hwriter, outer_split inner frame _ (hwriter ▸ store.writer_distinct)]
      rfl
    exact Relation.ReflTransGen.head hparent (ih (inner ++ [frame]) (by simp [hwriter]))

/-- The transactions around a write transaction reach only each other. -/
theorem Reaches.mem_outer {inner rest : List (Frame σ)} {frame : Frame σ}
    (hwriter : store.writer = inner ++ frame :: rest) (hreaches : store.Reaches t u)
    (ht : t ∈ rest.map Frame.id) : u ∈ rest.map Frame.id := by
  induction hreaches with
  | refl => exact ht
  | @tail v w _ hparent hv =>
    obtain ⟨found, hfound, rfl⟩ := mem_map.mp hv
    obtain ⟨before, behind, hrest⟩ := append_of_mem hfound
    have hstack : store.writer = (inner ++ frame :: before) ++ found :: behind := by
      rw [hwriter, hrest]
      simp
    obtain ⟨next, hnext, rfl⟩ := map_eq_some_iff.mp hparent
    rw [hstack, outer_split _ found behind (hstack ▸ store.writer_distinct)] at hnext
    rw [hrest]
    exact mem_map_of_mem (mem_append_right _ (mem_cons_of_mem found (mem_of_mem_head? hnext)))

/-- A handle is live when it is that of a write transaction or of a reader. -/
theorem live_iff (store : SnapshotStore σ) (t : ℕ) :
    store.Live t ↔ t ∈ store.writer.map Frame.id ∨ t ∈ store.readers.map Frame.id := by
  rw [← mem_append, ← map_append, List.mem_map]
  rfl

/-- A transaction that had been issued is open after another has begun when it was before. -/
theorem live_push_iff {t : ℕ} (ht : t < store.next) : store.push.Live t ↔ store.Live t := by
  simp [live_iff, Nat.ne_of_lt ht]

theorem live_beginRead_iff {t : ℕ} (ht : t < store.next) :
    store.beginRead.Live t ↔ store.Live t := by
  simp [live_iff, Nat.ne_of_lt ht]

/-- A reader that is dropped has ended, and no other. -/
theorem live_dropReader_iff {t : ℕ} (ht : t ∉ store.writer.map Frame.id) (u : ℕ) :
    (store.dropReader t).Live u ↔ store.Live u ∧ u ≠ t := by
  have hreaders : u ∈ (store.dropReader t).readers.map Frame.id ↔
      u ∈ store.readers.map Frame.id ∧ u ≠ t := by
    simp only [dropReader, List.mem_map, mem_filter, decide_eq_true_eq]
    constructor
    · rintro ⟨reader, ⟨hmem, hne⟩, rfl⟩
      exact ⟨⟨reader, hmem, rfl⟩, hne⟩
    · rintro ⟨⟨reader, hmem, rfl⟩, hne⟩
      exact ⟨reader, ⟨hmem, hne⟩, rfl⟩
  rw [live_iff, live_iff, hreaders, or_and_right]
  refine or_congr_left (iff_self_and.mpr fun hwriter ↦ ?_)
  rintro rfl
  exact ht hwriter

/-- An abort ends the transactions that reach the aborted one, and no others. -/
theorem live_abort_iff (store : SnapshotStore σ) (t u : ℕ) :
    (store.abort t).Live u ↔ store.Live u ∧ ¬ store.Reaches u t := by
  have hreader : u ∈ store.readers.map Frame.id → store.Reaches u t → t = u := by
    intro hmem hreaches
    obtain ⟨reader, hmem', rfl⟩ := mem_map.mp hmem
    exact hreaches.of_reader hmem'
  by_cases ht : t ∈ store.writer.map Frame.id
  · obtain ⟨frame, hframe, rfl⟩ := mem_map.mp ht
    obtain ⟨inner, rest, hwriter⟩ := append_of_mem hframe
    have hdistinct := store.writer_distinct
    rw [hwriter] at hdistinct
    have habort : (store.abort frame.id).writer = rest ∧
        (store.abort frame.id).readers = store.readers := by
      rw [abort, if_pos ht]
      refine ⟨?_, rfl⟩
      have houter := outer_split inner frame rest hdistinct
      rwa [← hwriter] at houter
    have hnot : frame.id ∉ rest.map Frame.id := by
      rw [map_append, map_cons] at hdistinct
      exact (nodup_cons.mp (nodup_append.mp hdistinct).2.1).1
    rw [live_iff, live_iff, habort.1, habort.2]
    constructor
    · rintro (hrest | hmem)
      · refine ⟨.inl ?_, fun hreaches ↦ hnot (hreaches.mem_outer hwriter hrest)⟩
        rw [hwriter]
        simp only [map_append, map_cons, mem_append, mem_cons]
        exact .inr (.inr hrest)
      · refine ⟨.inr hmem, fun hreaches ↦ ?_⟩
        obtain ⟨reader, hmem', heq⟩ := mem_map.mp hmem
        exact reader_not_writer hmem' (heq ▸ hreader hmem hreaches ▸ ht)
    · rintro ⟨hmem | hmem, hreaches⟩
      · obtain ⟨found, hfound, rfl⟩ := mem_map.mp hmem
        rw [hwriter] at hfound
        rcases mem_append.mp hfound with hinner | hcons
        · obtain ⟨before, middle, hinner⟩ := append_of_mem hinner
          have hstack : store.writer = before ++ found :: (middle ++ frame :: rest) := by
            rw [hwriter, hinner]
            simp
          exact absurd (reaches_outer before middle hstack) hreaches
        · rcases mem_cons.mp hcons with rfl | hrest
          · exact absurd Relation.ReflTransGen.refl hreaches
          · exact .inl (mem_map_of_mem hrest)
      · exact .inr hmem
  · rw [abort, if_neg ht, live_dropReader_iff ht]
    refine and_congr_right fun hlive ↦ not_congr ⟨?_, fun hreaches ↦ ?_⟩
    · rintro rfl
      exact Relation.ReflTransGen.refl
    · rcases (live_iff store u).mp hlive with hwriter | hmem
      · exact absurd (hreaches.mem_writer hwriter) ht
      · exact (hreader hmem hreaches).symm

/-! ### A property of every content -/

/-- A property of the durable content and of what every open transaction sees. -/
def All (P : σ → Prop) (store : SnapshotStore σ) : Prop :=
  P store.durable ∧ ∀ frame ∈ store.writer ++ store.readers, P frame.content

namespace All

variable {P : σ → Prop} {store : SnapshotStore σ}

theorem tip (hall : store.All P) : P store.tip := by
  cases hwriter : store.writer with
  | nil =>
    rw [tip_of_idle hwriter]
    exact hall.1
  | cons top rest =>
    rw [tip_of_writer hwriter]
    exact hall.2 top (by simp [hwriter])

theorem beginRead (hall : store.All P) : store.beginRead.All P := by
  refine ⟨hall.1, fun frame hframe ↦ ?_⟩
  rcases mem_append.mp hframe with hwriter | hreader
  · exact hall.2 frame (mem_append_left _ hwriter)
  · rcases mem_cons.mp hreader with rfl | hold
    · exact hall.1
    · exact hall.2 frame (mem_append_right _ hold)

theorem push (hall : store.All P) : store.push.All P := by
  refine ⟨hall.1, fun frame hframe ↦ ?_⟩
  rcases mem_cons.mp hframe with rfl | hold
  · exact hall.tip
  · exact hall.2 frame hold

theorem dropReader (hall : store.All P) (t : ℕ) : (store.dropReader t).All P := by
  refine ⟨hall.1, fun frame hframe ↦ ?_⟩
  rcases mem_append.mp hframe with hwriter | hreader
  · exact hall.2 frame (mem_append_left _ hwriter)
  · exact hall.2 frame (mem_append_right _ (mem_filter.mp hreader).1)

/-- Frames of the old stack, the innermost of them with a content that has the property. -/
theorem cut (hall : store.All P) {content top : σ} (hcontent : P content) (htop : P top)
    {frames : List (Frame σ)} (hold : ∀ frame ∈ frames, frame ∈ store.writer)
    (hframes : ((setTop top frames).map Frame.id).Sublist (store.writer.map Frame.id)) :
    (store.cut content (setTop top frames) hframes).All P := by
  refine ⟨hcontent, fun frame hframe ↦ ?_⟩
  rcases mem_append.mp hframe with hwriter | hreader
  · cases frames with
    | nil => cases hwriter
    | cons head rest =>
      rcases mem_cons.mp hwriter with rfl | hrest
      · exact htop
      · exact hall.2 frame (mem_append_left _ (hold frame (.tail _ hrest)))
  · exact hall.2 frame (mem_append_right _ hreader)

variable {t : ℕ} {update : σ → σ}

theorem modifyTop (hall : store.All P) (hkeeps : ∀ content, P content →
    P (update content)) : (store.modifyTop update).All P :=
  hall.cut hall.1 (hkeeps _ hall.tip) (fun _ hframe ↦ hframe) _

/-- The update has to keep the property of the frame it changes. -/
theorem modifyAt (hall : store.All P)
    (hkeeps : ∀ frame ∈ store.writer, frame.id = t → P (update frame.content)) :
    (store.modifyAt t update).All P := by
  refine ⟨hall.1, fun frame hframe ↦ ?_⟩
  rcases mem_append.mp hframe with hwriter | hreader
  · obtain ⟨old, hold, rfl⟩ := mem_map.mp hwriter
    by_cases hid : old.id = t
    · simpa [updateFrame, hid] using hkeeps old hold hid
    · simpa [updateFrame, hid] using hall.2 old (mem_append_left _ hold)
  · exact hall.2 frame (mem_append_right _ hreader)

theorem commit (hall : store.All P) (t : ℕ) : (store.commit t).All P := by
  unfold SnapshotStore.commit
  split_ifs
  · exact hall.cut hall.tip hall.tip (fun _ hframe ↦ (outer_sublist t _).subset hframe) _
  · exact hall.cut hall.1 hall.tip (fun _ hframe ↦ (outer_sublist t _).subset hframe) _
  · exact hall.dropReader t

theorem abort (hall : store.All P) (t : ℕ) : (store.abort t).All P := by
  unfold SnapshotStore.abort
  split_ifs
  · refine ⟨hall.1, fun frame hframe ↦ ?_⟩
    rcases mem_append.mp hframe with hwriter | hreader
    · exact hall.2 frame (mem_append_left _ ((outer_sublist t _).subset hwriter))
    · exact hall.2 frame (mem_append_right _ hreader)
  · exact hall.dropReader t

/-- What is found under a handle has the property. -/
theorem frame (hall : store.All P) {found : Frame σ} (hfound : store.frame? t = some found) :
    P found.content :=
  hall.2 found (mem_of_find?_eq_some hfound)

end All

/-! ### Updates of a kind -/

/-- The second store comes from the first by updates of this kind to its write transactions. -/
inductive Updates (kind : (σ → σ) → Prop) : SnapshotStore σ → SnapshotStore σ → Prop
  | refl (store : SnapshotStore σ) : Updates kind store store
  | step {store store' : SnapshotStore σ} (before : Updates kind store store') (t : ℕ)
      {update : σ → σ} (isKind : kind update) : Updates kind store (store'.modifyAt t update)

namespace Updates

variable {kind : (σ → σ) → Prop} {store store' : SnapshotStore σ}

theorem trans {store'' : SnapshotStore σ} (hfirst : Updates kind store store')
    (hsecond : Updates kind store' store'') : Updates kind store store'' := by
  induction hsecond with
  | refl => exact hfirst
  | step _ t hkind ih => exact ih.step t hkind

section

variable (hupdates : Updates kind store store')

include hupdates

theorem ids : store'.writer.map Frame.id = store.writer.map Frame.id := by
  induction hupdates with
  | refl => rfl
  | step _ t _ ih => rw [modifyAt_writer, map_id_updateFrame, ih]

theorem durable : store'.durable = store.durable := by
  induction hupdates with
  | refl => rfl
  | step _ t _ ih => rw [modifyAt_durable, ih]

theorem readers : store'.readers = store.readers := by
  induction hupdates with
  | refl => rfl
  | step _ t _ ih => rw [modifyAt_readers, ih]

/-- Assumes: the updates keep the property. Then every content keeps it. -/
theorem all {P : σ → Prop}
    (hkeeps : ∀ update, kind update → ∀ content, P content → P (update content))
    (hall : store.All P) : store'.All P := by
  induction hupdates with
  | refl => exact hall
  | step _ t hkind ih =>
    exact ih.modifyAt fun frame hframe _ ↦ hkeeps _ hkind _ (ih.2 frame (mem_append_left _ hframe))

/-- Assumes: the updates keep the relation. Then the contents of the write transactions keep it. -/
theorem forall₂ {β : Type*} {R : σ → β → Prop}
    (hkeeps : ∀ update, kind update → ∀ content value, R content value → R (update content) value)
    {values : List β} (hrelated : List.Forall₂ R (store.writer.map Frame.content) values) :
    List.Forall₂ R (store'.writer.map Frame.content) values := by
  induction hupdates with
  | refl => exact hrelated
  | step _ t hkind ih =>
    rw [modifyAt_writer, List.map_map, List.forall₂_map_left_iff]
    rw [forall₂_map_left_iff] at ih
    refine ih.imp fun frame value hvalue ↦ ?_
    rw [Function.comp_apply, updateFrame]
    split_ifs
    · exact hkeeps _ hkind _ _ hvalue
    · exact hvalue

end

end Updates

end SnapshotStore

end LumoSQL.Foundation

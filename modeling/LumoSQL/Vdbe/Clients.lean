import LumoSQL.Foundation.GuardedRun
import LumoSQL.Vdbe.Commit

/-!
# Connections that read, upgrade and write

Several connections run a transaction each on one environment: `sqlite3BtreeBeginTrans` for reading,
lookups, `sqlite3BtreeBeginTrans` for writing, writes that depend on the values looked up, and phase
one of a commit. The steps of the connections interleave in any order, and LMDB may refuse a call at
any time; a refused begin is tried again.

The upgrade does not keep the snapshot that was read: it begins a write transaction on whatever is
durable by then. When the lookups would still give the values that were looked up, the transaction
does what it would have done had it run there alone, so runs whose upgrades are all of this kind are
serial in the order of their commits (`clients_serial`, `upgrade_runs_serial`). Otherwise an update
can be lost: `upgrade_loses_update`.
-/

namespace LumoSQL

open Foundation List Option Function SnapshotStore

variable {ι ρ : Type*}

/-! ### Transactions -/

/-- A transaction: lookups, each of which may depend on the values looked up before it, and the
writes that the values give. -/
structure Transaction (ρ : Type*) where
  lookups : List (List ρ → Content → ρ)
  writes : List ρ → List Write

namespace Transaction

/-- The values of the lookups on a content, after those looked up already. -/
def lookUp (content : Content) : List ρ → List (List ρ → Content → ρ) → List ρ
  | values, [] => values
  | values, lookup :: rest => lookUp content (values ++ [lookup values content]) rest

def valuesOn (tx : Transaction ρ) (content : Content) : List ρ := lookUp content [] tx.lookups

def runOn (tx : Transaction ρ) (content : Content) : Content :=
  applyWrites content (tx.writes (tx.valuesOn content))

end Transaction

/-! ### The connections -/

/-- How far a connection has come in its transaction. -/
inductive Stage (ρ : Type*)
  | start
  | reading (values : List ρ) (left : List (List ρ → Content → ρ))
  | writing (left : List Write)
  | over (rc : Rc)

/-- A connection: its Btree, the memory of its cursors and its transaction's stage. -/
structure Client (ρ : Type*) where
  bt : Btree
  cursor : ℕ → BtCursor
  stage : Stage ρ

/-- Connections on one environment. The log has those whose commit returned `SQLITE_OK`, in that
order. -/
structure Site (ι ρ : Type*) where
  env : Env
  client : ι → Client ρ
  log : List ι

namespace Site

variable [DecidableEq ι]

def handle (s : Site ι ρ) (i : ι) : Handle := ⟨s.env, (s.client i).bt, (s.client i).cursor⟩

/-- A connection has come to a stage, and a call on its Btree has left the handle `h`. -/
def put (s : Site ι ρ) (i : ι) (h : Handle) (stage : Stage ρ) : Site ι ρ :=
  { s with
    env := h.env
    client := Function.update s.client i ⟨h.bt, h.cursor, stage⟩ }

/-- The next step of connection `i`. -/
def step (txs : ι → Transaction ρ) (s : Site ι ρ) (i : ι) : Site ι ρ :=
  match (s.client i).stage with
  | .start =>
    let began := sqlite3BtreeBeginTrans (s.handle i) 0
    s.put i began.2 (if began.1 = .ok then .reading [] (txs i).lookups else .start)
  | .reading values (lookup :: left) =>
    s.put i (s.handle i) (.reading (values ++ [lookup values (s.handle i).visible]) left)
  | .reading values [] =>
    let began := sqlite3BtreeBeginTrans (s.handle i) 1
    s.put i began.2 (if began.1 = .ok then .writing ((txs i).writes values) else .reading values [])
  | .writing (w :: left) => s.put i ((s.handle i).writes [w]) (.writing left)
  | .writing [] =>
    let committed := sqlite3BtreeCommitPhaseOne (s.handle i)
    { s.put i committed.2 (.over committed.1) with
      log := if committed.1 = .ok then s.log ++ [i] else s.log }
  | .over _ => s

/-- The connections before their first steps, on an environment that LMDB has just opened. -/
def opened (content : Content) (outcomes : List MdbRc) (currentIsOp : Bool) (id : ι → ℕ) :
    Site ι ρ where
  env := Env.created content outcomes currentIsOp
  client := fun i ↦ ⟨⟨id i, 0, none, none, .none, []⟩, fun _ ↦ ⟨none, none⟩, .start⟩
  log := []

end Site

/-- The upgrades that do no harm: when a connection begins to write, its lookups would give on the
durable content the values it has looked up. -/
def UpgradeCurrent (txs : ι → Transaction ρ) (s : Site ι ρ) (i : ι) : Prop :=
  match (s.client i).stage with
  | .reading values [] => s.env.store.writer = [] → values = (txs i).valuesOn s.env.store.durable
  | _ => True

/-! ### A call on one Btree leaves the others alone -/

theorem Apart.symm {p q : Btree} (hapart : Apart p q) : Apart q p :=
  fun t hq hp ↦ hapart t hp hq

variable {env env' : Env} {p : Btree} {stage : Stage ρ} {tx : Transaction ρ} (h : Handle)

/-- The main transaction of a Btree has been issued. -/
theorem Tracks.mainTxn_lt {env : Env} (htracks : Tracks env p) {t : ℕ} (hmain : p.mainTxn = some t)
    : t < env.store.next := by
  rcases htracks with ⟨_, hnone, _⟩ | ⟨_, reader, hmem, hreader, _⟩ | ⟨hin, hopen, hlast, hcurr⟩
  · rw [hnone] at hmain
    cases hmain
  · rw [hreader] at hmain
    exact some.inj hmain ▸ env.store.issued reader (mem_append_right _ hmem)
  · obtain ⟨inner, last, hends, hbottom⟩ :=
      (Tracks.writing hin hopen hlast hcurr : Tracks env p).exists_bottom hin
    rw [hbottom] at hmain
    exact some.inj hmain ▸ env.store.issued last (by simp [hends])

theorem beginTrans_confined (wrflag : ℕ) (htracks : Tracks h.env h.bt) :
    Confined h (sqlite3BtreeBeginTrans h wrflag).2 := by
  have htracks' := tracks_beginTrans h wrflag htracks
  -- A Btree that agrees with the environment cannot have the handle that is issued next.
  have hfresh : ∀ q mode, Tracks h.env q → Apart (h.bt.began mode h.env.store.next) q := by
    intro q mode hq t ht hqmain
    cases ht
    exact absurd (hq.mainTxn_lt hqmain) (Nat.lt_irrefl _)
  rcases beginTrans_cases h wrflag htracks with ⟨hresult, _⟩ | ⟨rc, _, hresult, _, _⟩ |
    ⟨_, _, hresult⟩ | ⟨_, _, hwriter, hresult⟩ | ⟨_, _, hwriter, reader, hmem, hmain, hresult⟩
  · rw [hresult]
    exact Confined.refl htracks
  · rw [hresult] at htracks' ⊢
    exact Confined.of_store rfl rfl htracks htracks' (.inr rfl) (fun _ hreader _ ↦ hreader)
      fun _ ↦ rfl
  · rw [hresult] at htracks' ⊢
    refine ⟨rfl, rfl, htracks', fun q hq _ ↦ ⟨?_, hfresh q _ hq⟩⟩
    by_cases hwrite : q.inTrans = .write
    · exact hq.of_writer hwrite rfl
    · exact hq.of_readers hwrite fun _ hreader _ ↦ .tail _ hreader
  · rw [hresult] at htracks' ⊢
    refine ⟨rfl, rfl, htracks', fun q hq _ ↦ ⟨?_, hfresh q _ hq⟩⟩
    have hquiet : q.inTrans ≠ .write := by
      intro hwrite
      obtain ⟨top, rest, hopen, _⟩ := hq.exists_top hwrite
      exact absurd (hwriter.symm.trans hopen) (by simp)
    exact hq.of_readers hquiet fun _ hreader _ ↦ hreader
  · rw [hresult] at htracks' ⊢
    refine ⟨rfl, rfl, htracks', fun q hq hapart ↦ ⟨?_, hfresh q _ hq⟩⟩
    have hquiet : q.inTrans ≠ .write := by
      intro hwrite
      obtain ⟨top, rest, hopen, _⟩ := hq.exists_top hwrite
      exact absurd (hwriter.symm.trans hopen) (by simp)
    refine hq.of_readers hquiet fun other hother hqmain ↦ mem_filter.mpr ⟨hother, ?_⟩
    have hne : other.id ≠ reader.id := fun heq ↦ hapart reader.id hmain (heq ▸ hqmain)
    simpa using hne

theorem writes_confined (ws : List Write) (htracks : Tracks h.env h.bt) :
    Confined h (h.writes ws) := by
  obtain ⟨hwriter, _, hreaders⟩ := foldl_modifyTop h.env.store ws
  have hkeep : ∀ q, Tracks h.env q → Tracks (h.writes ws).env q := by
    intro q hq
    by_cases hwrite : q.inTrans = .write
    · refine hq.of_writer hwrite ?_
      show (ws.foldl (fun store w ↦ store.modifyTop w) h.env.store).writer.map Frame.id = _
      rw [hwriter, map_id_setTop]
    · refine hq.of_readers hwrite fun reader hreader _ ↦ ?_
      show reader ∈ (ws.foldl (fun store w ↦ store.modifyTop w) h.env.store).readers
      rwa [hreaders]
  exact ⟨rfl, rfl, hkeep h.bt htracks, fun q hq hapart ↦ ⟨hkeep q hq, hapart⟩⟩

/-! ### Serial so far -/

/-- What holds of a connection at each stage. While it writes, the write transaction holds the part
of its writes that is done, and these are the writes it would make on the durable content. -/
def AtStage (tx : Transaction ρ) (env : Env) (p : Btree) : Stage ρ → Prop
  | .start => p.inTrans = .none
  | .reading _ _ => p.inTrans = .read
  | .writing left => p.inTrans = .write ∧ ∃ top done, env.store.writer = [top] ∧
      done ++ left = tx.writes (tx.valuesOn env.store.durable) ∧
      top.content = applyWrites env.store.durable done
  | .over _ => p.inTrans = .none

/-- The stage of a connection that does not write has nothing to do with the environment. -/
theorem AtStage.of_quiet (hat : AtStage tx env p stage) (hquiet : p.inTrans ≠ .write) :
    AtStage tx env' p stage := by
  cases stage with
  | writing left => exact absurd hat.1 hquiet
  | _ => exact hat

theorem AtStage.of_same (hat : AtStage tx env p stage)
    (hwriter : env'.store.writer = env.store.writer)
    (hdurable : env'.store.durable = env.store.durable) : AtStage tx env' p stage := by
  cases stage with
  | writing left =>
    rwa [AtStage, hwriter, hdurable]
  | _ => exact hat

/-- The durable content is that of the logged transactions, run one after the other. -/
structure SerialSoFar [DecidableEq ι] (txs : ι → Transaction ρ) (content : Content)
    (s : Site ι ρ) : Prop where
  tracks : ∀ i, Tracks s.env (s.client i).bt
  apart : ∀ i j, i ≠ j → Apart (s.client i).bt (s.client j).bt
  stages : ∀ i, AtStage (txs i) s.env (s.client i).bt (s.client i).stage
  durable : s.env.store.durable = s.log.foldl (fun content i ↦ (txs i).runOn content) content
  logged : ∀ i, i ∈ s.log ↔ (s.client i).stage = .over .ok
  nodup : s.log.Nodup

section

variable [DecidableEq ι] {txs : ι → Transaction ρ} {content : Content} {s : Site ι ρ}

variable {h' : Handle} {i : ι} {stage : Stage ρ} {values : List ρ}

section

variable (hserial : SerialSoFar txs content s)

include hserial

/-- A confined call on one Btree that leaves the write stack and the durable content alone while
another Btree writes. -/
theorem SerialSoFar.put (i : ι) {log : List ι} (hconfined : Confined (s.handle i) h')
    (hat : AtStage (txs i) h'.env h'.bt stage)
    (hothers : (s.client i).bt.inTrans ≠ .write → s.env.store.writer ≠ [] →
      h'.env.store.writer = s.env.store.writer ∧ h'.env.store.durable = s.env.store.durable)
    (hdurable : h'.env.store.durable = log.foldl (fun content i ↦ (txs i).runOn content) content)
    (hlogged : ∀ j, j ∈ log ↔ (if j = i then stage else (s.client j).stage) = .over .ok)
    (hnodup : log.Nodup) : SerialSoFar txs content { s.put i h' stage with log := log } := by
  have hown : (s.put i h' stage).client i = ⟨h'.bt, h'.cursor, stage⟩ := update_self _ _ _
  have hother : ∀ j, j ≠ i → (s.put i h' stage).client j = s.client j := fun j hne ↦
    update_of_ne hne _ _
  refine ⟨?_, ?_, ?_, hdurable, ?_, hnodup⟩
  · intro j
    by_cases hj : j = i
    · rw [hj, hown]
      exact hconfined.tracks
    · rw [hother j hj]
      exact (hconfined.others _ (hserial.tracks j) (hserial.apart i j (Ne.symm hj))).1
  · have hapart : ∀ j, j ≠ i → Apart h'.bt (s.client j).bt := fun j hj ↦
      (hconfined.others _ (hserial.tracks j) (hserial.apart i j (Ne.symm hj))).2
    intro j k hne
    by_cases hj : j = i
    · have hk : k ≠ i := fun hk ↦ hne (hj.trans hk.symm)
      rw [hj, hown, hother k hk]
      exact hapart k hk
    · by_cases hk : k = i
      · rw [hk, hown, hother j hj]
        exact (hapart j hj).symm
      · rw [hother j hj, hother k hk]
        exact hserial.apart j k hne
  · intro j
    by_cases hj : j = i
    · rwa [hj, hown]
    · rw [hother j hj]
      -- Only a writing connection depends on the environment, and then connection `i` does not
      -- write and the write stack is not empty.
      by_cases hwrite : (s.client j).bt.inTrans = .write
      · have hquiet := (hserial.tracks j).not_both_write (hserial.tracks i) (hserial.apart j i hj)
          hwrite
        obtain ⟨top, rest, hopen, _⟩ := (hserial.tracks j).exists_top hwrite
        obtain ⟨hwriter, hsame⟩ := hothers hquiet (by rw [hopen]; simp)
        exact (hserial.stages j).of_same hwriter hsame
      · exact (hserial.stages j).of_quiet hwrite
  · intro j
    rw [hlogged j]
    by_cases hj : j = i
    · rw [hj, hown, if_pos rfl]
    · rw [hother j hj, if_neg hj]

theorem SerialSoFar.put_same (i : ι) (hconfined : Confined (s.handle i) h')
    (hat : AtStage (txs i) h'.env h'.bt stage)
    (hwriter : (s.client i).bt.inTrans ≠ .write → s.env.store.writer ≠ [] →
      h'.env.store.writer = s.env.store.writer)
    (hdurable : h'.env.store.durable = s.env.store.durable)
    (hbefore : (s.client i).stage ≠ .over .ok) (hafter : stage ≠ .over .ok) :
    SerialSoFar txs content (s.put i h' stage) := by
  refine hserial.put i hconfined hat (fun hquiet hopen ↦ ⟨hwriter hquiet hopen, hdurable⟩)
    (hdurable.trans hserial.durable) ?_ hserial.nodup
  intro j
  rw [hserial.logged j]
  by_cases hj : j = i
  · rw [hj, if_pos rfl]
    exact ⟨fun hover ↦ absurd hover hbefore, fun hover ↦ absurd hover hafter⟩
  · rw [if_neg hj]

theorem SerialSoFar.beginRead (hstage : (s.client i).stage = .start) :
    SerialSoFar txs content (s.step txs i) := by
  have hin : (s.client i).bt.inTrans = .none := by
    have hat := hserial.stages i
    rwa [hstage] at hat
  have hconfined := beginTrans_confined (s.handle i) 0 (hserial.tracks i)
  have hbefore : (s.client i).stage ≠ .over .ok := by simp [hstage]
  simp only [Site.step, hstage]
  rcases beginTrans_cases (s.handle i) 0 (hserial.tracks i) with ⟨_, hstay⟩ |
    ⟨rc, hfail, hresult, _⟩ | ⟨_, _, hresult⟩ | ⟨hflag, _⟩ | ⟨hflag, _⟩
  · have hnone : (s.handle i).bt.inTrans = .none := hin
    simp [hnone] at hstay
  · rw [hresult] at hconfined ⊢
    rw [if_neg hfail]
    exact hserial.put_same i hconfined hin (fun _ _ ↦ rfl) rfl hbefore (by simp)
  · rw [hresult] at hconfined ⊢
    rw [if_pos rfl]
    exact hserial.put_same i hconfined rfl (fun _ _ ↦ rfl) rfl hbefore (by simp)
  · exact absurd rfl hflag
  · exact absurd rfl hflag

/-- A lookup changes nothing but what the connection has looked up. -/
theorem SerialSoFar.lookUp {lookup : List ρ → Content → ρ} {left : List (List ρ → Content → ρ)}
    (hstage : (s.client i).stage = .reading values (lookup :: left)) :
    SerialSoFar txs content (s.step txs i) := by
  have hat := hserial.stages i
  rw [hstage] at hat
  simp only [Site.step, hstage]
  exact hserial.put_same i (Confined.refl (hserial.tracks i)) hat (fun _ _ ↦ rfl) rfl
    (by simp [hstage]) (by simp)

/-- Assumes: the lookups would give what was looked up. After the upgrade the connection is about to
make the writes it would make on the durable content. -/
theorem SerialSoFar.upgrade (hstage : (s.client i).stage = .reading values [])
    (hcurrent : UpgradeCurrent txs s i) : SerialSoFar txs content (s.step txs i) := by
  have hin : (s.handle i).bt.inTrans = .read := by
    have hat := hserial.stages i
    rwa [hstage] at hat
  have hconfined := beginTrans_confined (s.handle i) 1 (hserial.tracks i)
  have hbefore : (s.client i).stage ≠ .over .ok := by simp [hstage]
  simp only [Site.step, hstage]
  rcases beginTrans_cases (s.handle i) 1 (hserial.tracks i) with ⟨_, hstay⟩ |
    ⟨rc, hfail, hresult, _⟩ | ⟨hflag, _⟩ | ⟨_, hnone, _⟩ | ⟨_, _, hwriter, reader, _, _, hresult⟩
  · simp [hin] at hstay
  · rw [hresult] at hconfined ⊢
    rw [if_neg hfail]
    exact hserial.put_same i hconfined hin (fun _ _ ↦ rfl) rfl hbefore (by simp)
  · exact absurd hflag Nat.one_ne_zero
  · exact absurd (hin.symm.trans hnone) (by simp)
  · rw [UpgradeCurrent, hstage] at hcurrent
    have hvalues := hcurrent hwriter
    rw [hresult] at hconfined ⊢
    rw [if_pos rfl]
    refine hserial.put_same i hconfined ?_ (fun _ hopen ↦ absurd hwriter hopen) rfl
      hbefore (by simp)
    refine ⟨rfl, ⟨s.env.store.next, s.env.store.tip⟩, [], ?_, ?_, ?_⟩
    · have hnone : s.env.store.writer = [] := hwriter
      show s.env.store.push.writer = _
      rw [push_writer, hnone]
    · rw [nil_append, hvalues]
      rfl
    · exact tip_of_idle hwriter

/-- A write goes to the write transaction of the connection. -/
theorem SerialSoFar.write {w : Write} {left : List Write}
    (hstage : (s.client i).stage = .writing (w :: left)) :
    SerialSoFar txs content (s.step txs i) := by
  have hat := hserial.stages i
  rw [hstage] at hat
  obtain ⟨hwrite, top, done, hwriter, hwrites, hcontent⟩ := hat
  obtain ⟨hwriter', hdurable', _⟩ := foldl_modifyTop s.env.store [w]
  rw [hwriter, tip_of_writer hwriter] at hwriter'
  simp only [Site.step, hstage]
  refine hserial.put_same i (writes_confined _ [w] (hserial.tracks i)) ?_
    (fun hquiet _ ↦ absurd hwrite hquiet) hdurable' (by simp [hstage]) (by simp)
  refine ⟨hwrite, ⟨top.id, applyWrites top.content [w]⟩, done ++ [w], hwriter', ?_, ?_⟩
  · rw [append_assoc, singleton_append, hwrites]
    rfl
  · show applyWrites top.content [w] = applyWrites s.env.store.durable (done ++ [w])
    rw [hcontent, applyWrites, applyWrites, applyWrites, foldl_append]

/-- The commit makes durable what the transaction would have made of the durable content, or fails
and changes nothing. -/
theorem SerialSoFar.commit (hstage : (s.client i).stage = .writing []) :
    SerialSoFar txs content (s.step txs i) := by
  have hat := hserial.stages i
  rw [hstage] at hat
  obtain ⟨hwrite, top, done, hwriter, hwrites, hcontent⟩ := hat
  rw [append_nil] at hwrites
  obtain ⟨left, hended⟩ := commitPhaseOne_bt (s.handle i) (hserial.tracks i)
  have hidle : (sqlite3BtreeCommitPhaseOne (s.handle i)).2.bt.inTrans = .none := by
    rw [hended]
    rfl
  have hconfined := commitPhaseOne_confined (s.handle i) (hserial.tracks i)
  have hunlogged : i ∉ s.log := by
    rw [hserial.logged i, hstage]
    simp
  simp only [Site.step, hstage]
  by_cases hok : s.env.outcome = .success
  · obtain ⟨hrc, hdurable⟩ := phaseOne_accepted (h := s.handle i) (hserial.tracks i) hwrite hok
    rw [if_pos hrc]
    refine hserial.put i hconfined hidle (fun hquiet _ ↦ absurd hwrite hquiet) ?_ ?_ ?_
    · rw [foldl_append, ← hserial.durable, hdurable]
      show s.env.store.tip = (txs i).runOn s.env.store.durable
      rw [tip_of_writer hwriter, hcontent, hwrites]
      rfl
    · intro j
      rw [mem_append, mem_singleton, hserial.logged j]
      by_cases hj : j = i
      · rw [if_pos hj, hrc]
        exact ⟨fun _ ↦ rfl, fun _ ↦ .inr hj⟩
      · rw [if_neg hj]
        exact ⟨fun h ↦ h.resolve_right hj, .inl⟩
    · refine nodup_append.mpr ⟨hserial.nodup, nodup_singleton i, ?_⟩
      intro a ha b hb heq
      exact hunlogged (mem_singleton.mp hb ▸ heq ▸ ha)
  · obtain ⟨hrc, hdurable⟩ := phaseOne_refused (h := s.handle i) (hserial.tracks i) hwrite hok
    rw [if_neg hrc]
    refine hserial.put i hconfined hidle (fun hquiet _ ↦ absurd hwrite hquiet)
      (hdurable.trans hserial.durable) ?_ hserial.nodup
    intro j
    by_cases hj : j = i
    · rw [if_pos hj, hj]
      exact ⟨fun hmem ↦ absurd hmem hunlogged, fun hover ↦ absurd (Stage.over.inj hover) hrc⟩
    · rw [if_neg hj]
      exact hserial.logged j

/-- Every step keeps the connections serial, when upgrades find their lookups current. -/
theorem SerialSoFar.step (i : ι) (hcurrent : UpgradeCurrent txs s i) :
    SerialSoFar txs content (s.step txs i) := by
  cases hstage : (s.client i).stage with
  | start => exact hserial.beginRead hstage
  | reading values left =>
    cases left with
    | nil => exact hserial.upgrade hstage hcurrent
    | cons lookup left => exact hserial.lookUp hstage
  | writing left =>
    cases left with
    | nil => exact hserial.commit hstage
    | cons w left => exact hserial.write hstage
  | _ =>
    simp only [Site.step, hstage]
    exact hserial

end

theorem SerialSoFar.opened (txs : ι → Transaction ρ) (content : Content) (outcomes : List MdbRc)
    (currentIsOp : Bool) (id : ι → ℕ) :
    SerialSoFar txs content (Site.opened content outcomes currentIsOp id) where
  tracks := fun _ ↦ .idle rfl rfl rfl
  apart := fun _ _ _ t ht ↦ absurd ht (by simp [Site.opened])
  stages := fun _ ↦ rfl
  durable := rfl
  logged := fun _ ↦ ⟨fun hmem ↦ absurd hmem not_mem_nil, fun hover ↦ by simp [Site.opened] at hover⟩
  nodup := nodup_nil

end

/-! ### Runs -/

/-- Assumes: upgrades find their lookups current. Whatever the number of connections, the order of
their steps and the codes LMDB reports, the durable content is that of the committed transactions,
run one after the other in the order of their commits. -/
theorem clients_serial [DecidableEq ι] (txs : ι → Transaction ρ) (content : Content)
    (outcomes : List MdbRc) (currentIsOp : Bool) (id : ι → ℕ) {schedule : List ι}
    (hmeets : Meets (Site.step txs) (UpgradeCurrent txs)
      (Site.opened content outcomes currentIsOp id) schedule) :
    SerialSoFar txs content
      (schedule.foldl (Site.step txs) (Site.opened content outcomes currentIsOp id)) :=
  hmeets.invariant (fun _ i hserial hcurrent ↦ hserial.step i hcurrent)
    (SerialSoFar.opened txs content outcomes currentIsOp id)

/-- A log of two connections that has both has them in one of the two orders. -/
theorem log_pair {log : List Bool} (hnodup : log.Nodup) (hfirst : false ∈ log)
    (hsecond : true ∈ log) : log = [false, true] ∨ log = [true, false] := by
  have hperm : log.Perm [false, true] := by
    refine (perm_ext_iff_of_nodup hnodup (by simp)).mpr fun i ↦ ?_
    cases i with
    | false => simp [hfirst]
    | true => simp [hsecond]
  obtain ⟨i, j, rfl⟩ := length_eq_two.mp hperm.length_eq
  cases i with
  | false =>
    cases j with
    | false => exact absurd hnodup (by simp)
    | true => exact .inl rfl
  | true =>
    cases j with
    | false => exact .inr rfl
    | true => exact absurd hnodup (by simp)

/-- Assumes: upgrades find their lookups current, and both commits have returned `SQLITE_OK`. Two
connections leave what their transactions leave when they run one after the other. -/
theorem upgrade_runs_serial (txs : Bool → Transaction ρ) (content : Content)
    (outcomes : List MdbRc) (currentIsOp : Bool) (id : Bool → ℕ) (schedule : List Bool)
    (hmeets : Meets (Site.step txs) (UpgradeCurrent txs)
      (Site.opened content outcomes currentIsOp id) schedule)
    (hcommitted : ∀ i, ((schedule.foldl (Site.step txs)
      (Site.opened content outcomes currentIsOp id)).client i).stage = .over .ok) :
    (schedule.foldl (Site.step txs)
        (Site.opened content outcomes currentIsOp id)).env.store.durable =
        (txs true).runOn ((txs false).runOn content) ∨
      (schedule.foldl (Site.step txs)
        (Site.opened content outcomes currentIsOp id)).env.store.durable =
        (txs false).runOn ((txs true).runOn content) := by
  have hserial := clients_serial txs content outcomes currentIsOp id hmeets
  rw [hserial.durable]
  rcases log_pair hserial.nodup ((hserial.logged false).mpr (hcommitted false))
    ((hserial.logged true).mpr (hcommitted true)) with hlog | hlog
  · rw [hlog]
    exact .inl rfl
  · rw [hlog]
    exact .inr rfl

def createFree : Transaction Bool where
  lookups := [fun _ content ↦ (content.db (.tab 2)).isSome]
  writes := fun values ↦ [createTab (if values = [true] then 3 else 2)]

/-- One after the other, the two connections create both tables. -/
theorem upgrade_runs_serial_createFree :
    ([false, false, false, false, false, true, true, true, true, true].foldl
        (Site.step fun _ ↦ createFree)
        (Site.opened ⟨fun _ ↦ none⟩ [] false Bool.toNat)).env.store.durable =
        createFree.runOn (createFree.runOn ⟨fun _ ↦ none⟩) := by
  refine (upgrade_runs_serial (fun _ ↦ createFree) ⟨fun _ ↦ none⟩ [] false Bool.toNat
    [false, false, false, false, false, true, true, true, true, true] ?_ ?_).elim id id
  · exact ⟨trivial, trivial, fun _ ↦ rfl, trivial, trivial, trivial, trivial, fun _ ↦ rfl, trivial,
      trivial, trivial⟩
  · intro i
    cases i <;> rfl

def bothLookUpFirst : Site Bool Bool :=
  [false, false, true, true, false, false, false, true, true, true].foldl
    (Site.step fun _ ↦ createFree) (Site.opened ⟨fun _ ↦ none⟩ [] false Bool.toNat)

/-- When both connections look up before either commits, they create the same table: both commits
return `SQLITE_OK`, and the second takes the place of the first. -/
theorem upgrade_loses_update : (∀ i, (bothLookUpFirst.client i).stage = .over .ok) ∧
    bothLookUpFirst.env.store.durable ≠ createFree.runOn (createFree.runOn ⟨fun _ ↦ none⟩) := by
  constructor
  · intro i
    cases i <;> rfl
  · intro hserial
    exact absurd (congrArg (fun content ↦ (content.db (.tab 3)).isSome) hserial) (by decide)

end LumoSQL

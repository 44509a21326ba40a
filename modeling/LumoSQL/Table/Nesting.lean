import LumoSQL.Table.RootCalls

/-!
# Calls in one transaction

`DbCall.Stays` are the calls that stay in a transaction: they begin and end statements in it and
write to it. What such a call on transactions does is said in `TxnCall.stays_cases`, and `nest` does
the same to a list of values, one for the transaction and one for each statement that is open in it.
A list of values that describes the contents goes on describing them (`TxnCall.frames`).
-/

namespace LumoSQL

open Foundation List Option SnapshotStore Env Handle

/-! ### Staying in a transaction -/

/-- The values of a transaction and of the statements that are open in it, the innermost first,
after a call: a statement begins with the value around it, and its end keeps the value or goes back
to the one around it. -/
def nest {α : Type*} (write : α → DbCall → α) : List α → DbCall → List α
  | value :: rest, .txn (.beginStmt _) => value :: value :: rest
  | value :: outer :: rest, .txn (.savepoint op _) =>
    (if savepointOp op = .rollback then outer else value) :: rest
  | stack, .txn _ => stack
  | value :: rest, call => write value call :: rest
  | [], _ => []

/-- The call stays in the transaction: it begins no other one, and ends only a statement. A cursor
on the unnamed database is one of an earlier time. -/
def DbCall.Stays (h : Handle) : DbCall → Prop
  | .txn (.beginTrans wrflag) => h.bt.inTrans = .write ∨ wrflag = 0
  | .txn (.beginStmt _) => True
  | .txn (.savepoint _ iSavepoint) => iSavepoint ≠ -1 ∧ h.bt.currTxn ≠ h.bt.mainTxn
  | .txn _ => False
  | .insertUnnamed _ _ => False
  | _ => True

/-- A handle that can be reached, with a transaction, on which LMDB reports no failure. -/
structure InTxn (h : Handle) : Prop where
  reached : Reached h
  inTrans : h.bt.inTrans ≠ .none
  codes : h.env.outcomes = []

namespace InTxn

variable {h : Handle}

theorem exists_txn (hin : InTxn h) : ∃ txn, h.bt.currTxn = some txn ∧ h.env.blocked txn = false :=
  hin.reached.tracks.exists_free hin.inTrans

theorem currTxn_ne (hin : InTxn h) : h.bt.currTxn ≠ none := by
  obtain ⟨txn, hcurr, _⟩ := hin.exists_txn
  simp [hcurr]

theorem rootInv (hin : InTxn h) : RootInv h.visible := by
  obtain ⟨txn, hcurr, _⟩ := hin.exists_txn
  rw [Handle.visible, hcurr]
  exact seen_of_all hin.reached.inv txn

end InTxn

section

variable {ctx : BtreeContext} {h h' : Handle}

/-- A write to the innermost write transaction is seen through the handle. -/
theorem visible_modifyAt {txn : ℕ} {update : Write} (htracks : Tracks h.env h.bt)
    (hwrite : h.bt.inTrans = .write) (hcurr : h.bt.currTxn = some txn) (hbt : h'.bt = h.bt)
    (hstore : h'.env.store = h.env.store.modifyAt txn update) : h'.visible = update h.visible := by
  obtain ⟨top, rest, hwriter, htop⟩ := htracks.exists_top hwrite
  obtain rfl := some.inj (htop.symm.trans hcurr)
  have hmem : top ∈ h.env.store.writer := by simp [hwriter]
  rw [Handle.visible, hbt, hcurr, Handle.visible, hcurr]
  simp only
  rw [seen_modifyAt hmem hstore, seen_writer hmem]

/-- What a call on transactions does that stays in the transaction: nothing, or it begins a
statement, or it ends one. -/
theorem TxnCall.stays_cases (txn : TxnCall) (hin : InTxn h) (hasserts : txn.Asserts h)
    (hstays : (DbCall.txn txn).Stays h) :
    (∃ wrflag, txn = .beginTrans wrflag ∧ txn.run h = h) ∨
      (∃ stmt, txn = .beginStmt stmt ∧ h.bt.inTrans = .write ∧ txn.run h = { h with
        env := { h.env with store := h.env.store.push }
        bt := { h.bt with currTxn := some h.env.store.next } }) ∨
      ∃ op index top next rest store, txn = .savepoint op index ∧
        h.bt.inTrans = .write ∧ h.env.store.writer = top :: next :: rest ∧
        store.writer = ⟨next.id, if savepointOp op = .rollback then next.content
          else top.content⟩ :: rest ∧ store.durable = h.env.store.durable ∧
        txn.run h = { h with
          env := { h.env with store := store }
          bt := { h.bt with currTxn := some next.id } } := by
  have hspend := spend_nil hin.codes
  have hok := outcome_nil hin.codes
  have htracks := hin.reached.tracks
  cases txn with
  | beginTrans wrflag =>
    have hstay : h.bt.inTrans = .write ∨ (h.bt.inTrans = .read ∧ wrflag = 0) := by
      rcases hstays with hwrite | hzero
      · exact .inl hwrite
      · cases hmode : h.bt.inTrans with
        | none => exact absurd hmode hin.inTrans
        | read => exact .inr ⟨rfl, hzero⟩
        | write => exact .inl rfl
    exact .inl ⟨wrflag, rfl, by rw [TxnCall.run, sqlite3BtreeBeginTrans, if_pos hstay]⟩
  | beginStmt stmt =>
    refine .inr (.inl ⟨stmt, rfl, hasserts, ?_⟩)
    rcases beginStmt_cases h stmt htracks hasserts with ⟨_, _, hfails, _⟩ | ⟨_, hcall⟩
    · exact absurd hok hfails
    · rw [TxnCall.run, hcall, hspend]
  | savepoint op index =>
    obtain ⟨hindex, hnested⟩ := hstays
    have hwrite : h.bt.inTrans = .write := by
      rcases htracks with ⟨hnone, _⟩ | ⟨_, _, _, hmain, hcurr⟩ | ⟨hwrite, _⟩
      · exact absurd hnone hin.inTrans
      · exact absurd (hcurr.trans hmain.symm) hnested
      · exact hwrite
    obtain ⟨top, rest, hwriter, hcurr⟩ := htracks.exists_top hwrite
    cases rest with
    | nil =>
      obtain ⟨inner, last, hends, hmain⟩ := htracks.exists_bottom hwrite
      rw [hwriter] at hends
      have hlast : top = last := by
        simpa using congrArg List.getLast? hends
      exact absurd (hcurr.trans (hlast ▸ hmain.symm)) hnested
    | cons next rest =>
      refine .inr (.inr ⟨op, index, top, next, rest, ?_⟩)
      rw [TxnCall.run]
      cases savepointOp op with
      | rollback =>
        obtain ⟨store, hcall, hafter, hdurable, _⟩ := rollback_nested hwriter hcurr hindex
        exact ⟨store, rfl, hwrite, hwriter, hafter, hdurable, by rw [hcall]⟩
      | release =>
        obtain ⟨store, hcall, hafter, hdurable, _⟩ := release_nested hwriter hcurr hindex hok
        exact ⟨store, rfl, hwrite, hwriter, by simpa using hafter, hdurable, by rw [hcall, hspend]⟩
  | _ => exact hstays.elim

/-- A call on transactions that stays in the transaction keeps the mode and what is durable. -/
theorem TxnCall.stays_kept (txn : TxnCall) (hin : InTxn h) (hasserts : txn.Asserts h)
    (hstays : (DbCall.txn txn).Stays h) : (txn.run h).bt.inTrans = h.bt.inTrans ∧
      (txn.run h).env.store.durable = h.env.store.durable ∧ (txn.run h).env.outcomes = [] := by
  rcases txn.stays_cases hin hasserts hstays with ⟨_, _, hrun⟩ | ⟨_, _, _, hrun⟩ |
    ⟨_, _, _, _, _, _, _, _, _, _, hdurable, hrun⟩
  · rw [hrun]
    exact ⟨rfl, rfl, hin.codes⟩
  · rw [hrun]
    exact ⟨rfl, rfl, hin.codes⟩
  · rw [hrun]
    exact ⟨rfl, hdurable, hin.codes⟩

theorem DbCall.inTxn (call : DbCall) (hin : InTxn h) (hasserts : call.Asserts h)
    (hstays : call.Stays h) : InTxn (call.run ctx h) := by
  have hreached := call.reached ctx hin.reached hasserts
  rcases call.cases ctx hin.reached.tracks hasserts with ⟨txn, rfl⟩ | ⟨flags, rfl, hrewrites⟩ |
    ⟨txn, hcurr, hmakes⟩
  · obtain ⟨hmode, _, hcodes⟩ := txn.stays_kept hin hasserts hstays
    exact ⟨hreached, by rw [DbCall.run, hmode]; exact hin.inTrans, hcodes⟩
  · exact ⟨hreached, by rw [hrewrites.bt]; exact hin.inTrans, hrewrites.codes hin.codes⟩
  · exact ⟨hreached, by rw [hmakes.bt]; exact hin.inTrans, hmakes.codes hin.codes⟩

/-! ### A value for every open statement -/

/-- The contents of a transaction and of the statements that are open in it, the innermost first. -/
def Handle.frames (h : Handle) : List Content :=
  if h.bt.inTrans = .write then h.env.store.writer.map Frame.content else [h.visible]

theorem Handle.frames_write (hwrite : h.bt.inTrans = .write) :
    h.frames = h.env.store.writer.map Frame.content := if_pos hwrite

theorem InTxn.frames_eq (hin : InTxn h) : ∃ outer, h.frames = h.visible :: outer := by
  unfold Handle.frames
  split_ifs with hwrite
  · obtain ⟨top, rest, hwriter, hcurr⟩ := hin.reached.tracks.exists_top hwrite
    have hvisible := visible_top hwriter hcurr
    exact ⟨rest.map Frame.content, by rw [hwriter, map_cons, hvisible]⟩
  · exact ⟨[], rfl⟩

theorem InTxn.frames_main (hin : InTxn h) (hmain : h.bt.currTxn = h.bt.mainTxn) :
    h.frames = [h.visible] := by
  obtain ⟨outer, hframes⟩ := hin.frames_eq
  by_cases hwrite : h.bt.inTrans = .write
  · obtain ⟨top, rest, hwriter, hcurr⟩ := hin.reached.tracks.exists_top hwrite
    obtain ⟨inner, last, hends, hlast⟩ := hin.reached.tracks.exists_bottom hwrite
    have hid : top.id = last.id := some.inj (hcurr.symm.trans (hmain.trans hlast))
    have hdistinct := h.env.store.writer_distinct
    cases inner with
    | nil =>
      rw [frames_write hwrite, hends] at hframes
      rw [frames_write hwrite, hends, hframes]
      exact congrArg (h.visible :: ·) (cons.inj hframes).2.symm
    | cons first inner =>
      rw [hends] at hwriter
      have hfirst : first = top := (cons.inj hwriter).1
      rw [hends, map_append, map_cons, hfirst, hid] at hdistinct
      simp at hdistinct
  · exact if_neg hwrite

theorem nest_write {α : Type*} (write : α → DbCall → α) {call : DbCall}
    (htxn : ∀ txn, call ≠ .txn txn) (value : α) (rest : List α) :
    nest write (value :: rest) call = write value call :: rest := by
  cases call with
  | txn call => exact absurd rfl (htxn call)
  | _ => rfl

/-- The stack of values follows the calls on transactions. -/
theorem TxnCall.frames {α : Type*} {R : Content → α → Prop} (write : α → DbCall → α) (txn : TxnCall)
    (hin : InTxn h) (hasserts : txn.Asserts h) (hstays : (DbCall.txn txn).Stays h) {stack : List α}
    (hrelated : List.Forall₂ R h.frames stack) :
    List.Forall₂ R (txn.run h).frames (nest write stack (.txn txn)) := by
  rcases txn.stays_cases hin hasserts hstays with ⟨wrflag, rfl, hrun⟩ |
    ⟨stmt, rfl, hwrite, hrun⟩ |
    ⟨op, index, top, next, rest, store, rfl, hwrite, hwriter, hafter, _, hrun⟩
  · rw [hrun]
    cases stack with
    | nil | cons value stack => exact hrelated
  · obtain ⟨top, rest, hwriter, _⟩ := hin.reached.tracks.exists_top hwrite
    have hmode : (TxnCall.run h (.beginStmt stmt)).bt.inTrans = .write := by
      rwa [hrun]
    have hpushed : (TxnCall.run h (.beginStmt stmt)).env.store.writer =
        ⟨h.env.store.next, top.content⟩ :: top :: rest := by
      rw [hrun, ← tip_of_writer hwriter, ← hwriter]
      rfl
    rw [frames_write hwrite, hwriter] at hrelated
    rw [frames_write hmode, hpushed]
    obtain ⟨value, stack, htop, hrest, rfl⟩ := forall₂_cons_left_iff.mp hrelated
    exact .cons htop (.cons htop hrest)
  · have hmode : (TxnCall.run h (.savepoint op index)).bt.inTrans = .write := by
      rwa [hrun]
    have hpopped : (TxnCall.run h (.savepoint op index)).env.store.writer =
        ⟨next.id, if savepointOp op = .rollback then next.content else top.content⟩ :: rest := by
      rwa [hrun]
    rw [frames_write hwrite, hwriter] at hrelated
    rw [frames_write hmode, hpopped]
    obtain ⟨value, _, htop, hrest, rfl⟩ := forall₂_cons_left_iff.mp hrelated
    obtain ⟨outer, stack, hnext, hothers, rfl⟩ := forall₂_cons_left_iff.mp hrest
    refine .cons ?_ hothers
    split_ifs
    · exact hnext
    · exact htop

/-- The stack of values follows a call that is not one on transactions, which goes on writing to the
innermost content.
Assumes: creating a table changes no value, and every other write leaves what the new value
describes. -/
theorem DbCall.writes_frames {α : Type*} {R : Content → α → Prop} {write : α → DbCall → α}
    {call : DbCall} (hreached : Reached h) (hasserts : call.Asserts h)
    (hother : ∀ txn, call ≠ .txn txn)
    (hflags : ∀ value flags, write value (.createTable flags) = value)
    (hcreate : ∀ update, CreateUpdate update → ∀ content value, R content value →
      R (update content) value)
    (hmakes : ∀ txn value, h.bt.currTxn = some txn → MakesUpdate ctx h call txn (call.run ctx h) →
      R h.visible value → ∃ update : Write, R (update h.visible) (write value call) ∧
        (call.run ctx h).env.store = h.env.store.modifyAt txn update)
    {stack : List α} (hrelated : List.Forall₂ R h.frames stack) :
    (call.run ctx h).bt.inTrans = .write ∧
      (call.run ctx h).env.store.durable = h.env.store.durable ∧
      List.Forall₂ R (call.run ctx h).frames (nest write stack call) := by
  have hwrite := hasserts.write hother
  obtain ⟨top, rest, hwriter, htop⟩ := hreached.tracks.exists_top hwrite
  rw [frames_write hwrite, hwriter] at hrelated
  obtain ⟨value, stack, hhead, hrest, rfl⟩ := forall₂_cons_left_iff.mp hrelated
  rw [nest_write write hother]
  rcases call.cases ctx hreached.tracks hasserts with ⟨txn, rfl⟩ | ⟨flags, rfl, hrewrites⟩ |
    ⟨txn, hcurr, hmade⟩
  · exact absurd rfl (hother txn)
  · have hmode : (DbCall.run ctx h (.createTable flags)).bt.inTrans = .write := by
      rw [hrewrites.bt, hwrite]
    rw [frames_write hmode, hflags]
    exact ⟨hmode, hrewrites.updates.durable, hrewrites.updates.forall₂ hcreate (hwriter ▸ hrelated)⟩
  · obtain rfl := some.inj (htop.symm.trans hcurr)
    have hvisible := visible_top hwriter hcurr
    have hmode : (call.run ctx h).bt.inTrans = .write := by rw [hmade.bt, hwrite]
    obtain ⟨update, hupdate, hstore⟩ := hmakes top.id value hcurr hmade (hvisible ▸ hhead)
    rw [frames_write hmode, hstore, modifyAt_top hwriter, ← hvisible]
    exact ⟨hmode, modifyAt_durable .., .cons hupdate hrest⟩

/-- What holds after a part of a run in a transaction. -/
theorem inTxn_of_prefix {calls : List DbCall} (hin : InTxn h)
    (hcalls : Meets (DbCall.run ctx) (fun h call ↦ call.Asserts h ∧ call.Stays h) h calls)
    {taken : List DbCall} (htaken : taken <+: calls) :
    InTxn (taken.foldl (DbCall.run ctx) h) ∧ ∀ call, taken ++ [call] <+: calls →
      call.Asserts (taken.foldl (DbCall.run ctx) h) ∧
        call.Stays (taken.foldl (DbCall.run ctx) h) := by
  have hnext : ∀ (taken : List DbCall) (call : DbCall), taken ++ [call] <+: calls →
      call.Asserts (taken.foldl (DbCall.run ctx) h) ∧
        call.Stays (taken.foldl (DbCall.run ctx) h) := by
    rintro taken call ⟨rest, rfl⟩
    rw [append_assoc] at hcalls
    exact (Meets.append_iff.mp hcalls).2.1
  refine ⟨?_, hnext taken⟩
  induction taken using List.reverseRecOn with
  | nil => exact hin
  | append_singleton taken call ih =>
    obtain ⟨hasserts, hstays⟩ := hnext taken call htaken
    rw [foldl_append]
    exact call.inTxn (ih ((prefix_append taken [call]).trans htaken)) hasserts hstays

end

end LumoSQL

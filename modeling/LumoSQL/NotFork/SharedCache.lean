import LumoSQL.NotFork.Locking

/-!
# The cache while it is shared

The lock of the cache is held while an entry is made, and the lock of the entry until its index is
written out, which is when the object is destroyed. But the look through the whole cache at the
start of the first `get` of a process takes no lock at all. It dies of an entry without an index,
and of one whose index is still empty; and it is empty for as long as the first process clones the
upstream.

`Kept` is what the cache has while entries are being made: an index is missing or empty exactly if
there is a process that has made it so, and there is only one. So no other check of an index can
fail, and `shared_cache_iff`: nobody dies of an error in the cache if and only if nobody looks
through it while an entry that it comes to is being made.
-/

namespace LumoSQL.NotFork.Processes

open Foundation List Option Function Finmap

/-! ### One process goes on -/

section

variable {ι X : Type*} [DecidableEq ι] {proc : ι → X} {p : ι} {after : X}

theorem update_cases (holds : X → Prop) {q : ι} (hq : holds (Function.update proc p after q)) :
    q = p ∧ holds after ∨ q ≠ p ∧ holds (proc q) := by
  by_cases heq : q = p
  · rw [heq, update_self] at hq
    exact .inl ⟨heq, hq⟩
  · rw [update_of_ne heq] at hq
    exact .inr ⟨heq, hq⟩

theorem exists_update_congr (holds : X → Prop) (hsame : holds after ↔ holds (proc p)) :
    (∃ q, holds (Function.update proc p after q)) ↔ ∃ q, holds (proc q) := by
  rw [exists_update_iff proc fun _ ↦ holds, hsame]
  conv_rhs => rw [← update_eq_self p proc, exists_update_iff proc fun _ ↦ holds]

end

/-! ### The entries that are being made -/

section

variable {ι U K N : Type*} (hash : U → K) [DecidableEq K]

/-- What the cache has of one entry, and who is making it. -/
structure KeptAt (cache : Finmap fun _ : K ↦ Index U) (proc : ι → Proc U K N) (key : K) : Prop where
  missing : cache.lookup key = some .missing ↔ ∃ p, (proc p).Making hash key
  empty : cache.lookup key = some .empty ↔ ∃ p, (proc p).Creating hash key
  one : ∀ p q, (proc p).Creating hash key → (proc q).Creating hash key → p = q
  right : ∀ upstream, cache.lookup key = some (.line upstream) → hash upstream = key

/-- The cache has the entries as the processes have made them and seen them. -/
structure Kept (cache : Finmap fun _ : K ↦ Index U) (proc : ι → Proc U K N) : Prop where
  entries : ∀ key, KeptAt hash cache proc key
  opened : ∀ p key, (proc p).Opened hash key → Present cache key
  listed : ∀ p, ∀ key ∈ (proc p).todo, key ∈ cache

variable {hash} {cache cache' : Finmap fun _ : K ↦ Index U} {proc : ι → Proc U K N} {p : ι}
  {after : Proc U K N} {key : K}

theorem Present.insert {index : Index U} {other : K} (hthere : Present cache other)
    (hindex : other = key → index ≠ .missing) : Present (cache.insert key index) other := by
  obtain ⟨there, hlookup, hne⟩ := hthere
  by_cases heq : other = key
  · subst heq
    exact ⟨index, lookup_insert cache, hindex rfl⟩
  · exact ⟨there, by rw [lookup_insert_of_ne _ heq, hlookup], hne⟩

/-- An entry without an index is missing or is still being made. -/
theorem not_present_iff :
    ¬ Present cache key ↔ cache.lookup key = none ∨ cache.lookup key = some .missing := by
  rw [Present]
  cases cache.lookup key with
  | none | some index => simp

variable [DecidableEq ι]

theorem KeptAt.congr (hkept : KeptAt hash cache proc key)
    (hlookup : cache'.lookup key = cache.lookup key)
    (hmaking : after.Making hash key ↔ (proc p).Making hash key)
    (hcreating : after.Creating hash key ↔ (proc p).Creating hash key) :
    KeptAt hash cache' (Function.update proc p after) key := by
  have hcreates : ∀ q, (Function.update proc p after q).Creating hash key →
      (proc q).Creating hash key := by
    intro q hq
    rcases update_cases (Proc.Creating hash · key) hq with ⟨rfl, hafter⟩ | ⟨-, hother⟩
    · exact hcreating.mp hafter
    · exact hother
  refine ⟨?_, ?_, fun q r hq hr ↦ hkept.one q r (hcreates q hq) (hcreates r hr), ?_⟩
  · rw [hlookup, hkept.missing, exists_update_congr (Proc.Making hash · key) hmaking]
  · rw [hlookup, hkept.empty, exists_update_congr (Proc.Creating hash · key) hcreating]
  · rw [hlookup]
    exact hkept.right

/-- The entry is made.

Assumes: it was not there. -/
theorem KeptAt.makeDir (hkept : KeptAt hash cache proc key) (habsent : cache.lookup key = none)
    (hmaking : after.Making hash key) (hcreating : ¬ after.Creating hash key) :
    KeptAt hash (cache.insert key .missing) (Function.update proc p after) key := by
  have hnone : ∀ q, ¬ (Function.update proc p after q).Creating hash key := by
    intro q hq
    rcases update_cases (Proc.Creating hash · key) hq with ⟨-, hafter⟩ | ⟨-, hother⟩
    · exact hcreating hafter
    · cases habsent.symm.trans (hkept.empty.mpr ⟨q, hother⟩)
  refine ⟨?_, ?_, fun q r hq ↦ absurd hq (hnone q), ?_⟩
  · rw [lookup_insert]
    exact iff_of_true rfl ⟨p, by rwa [update_self]⟩
  · rw [lookup_insert]
    exact iff_of_false (nofun) fun ⟨q, hq⟩ ↦ hnone q hq
  · rw [lookup_insert]
    rintro upstream ⟨⟩

/-- The index of the entry is made.

Assumes: one process made the entry. -/
theorem KeptAt.create (hkept : KeptAt hash cache proc key) (hbefore : (proc p).Making hash key)
    (hunique : ∀ q, (proc q).Making hash key → q = p) (hmaking : ¬ after.Making hash key)
    (hcreating : after.Creating hash key) :
    KeptAt hash (cache.insert key .empty) (Function.update proc p after) key := by
  have hmissing := hkept.missing.mpr ⟨p, hbefore⟩
  have honly : ∀ q, (Function.update proc p after q).Creating hash key → q = p := by
    intro q hq
    rcases update_cases (Proc.Creating hash · key) hq with ⟨heq, -⟩ | ⟨-, hother⟩
    · exact heq
    · cases hmissing.symm.trans (hkept.empty.mpr ⟨q, hother⟩)
  refine ⟨?_, ?_, fun q r hq hr ↦ (honly q hq).trans (honly r hr).symm, ?_⟩
  · rw [lookup_insert]
    refine iff_of_false (nofun) fun ⟨q, hq⟩ ↦ ?_
    rcases update_cases (Proc.Making hash · key) hq with ⟨-, hafter⟩ | ⟨hne, hother⟩
    · exact hmaking hafter
    · exact hne (hunique q hother)
  · rw [lookup_insert]
    exact iff_of_true rfl ⟨p, by rwa [update_self]⟩
  · rw [lookup_insert]
    rintro upstream ⟨⟩

theorem KeptAt.flush {upstream : U} (hkept : KeptAt hash cache proc (hash upstream))
    (hbefore : (proc p).Creating hash (hash upstream))
    (hmaking : ¬ after.Making hash (hash upstream))
    (hcreating : ¬ after.Creating hash (hash upstream)) :
    KeptAt hash (cache.insert (hash upstream) (.line upstream)) (Function.update proc p after)
      (hash upstream) := by
  have hempty := hkept.empty.mpr ⟨p, hbefore⟩
  have hnone : ∀ q, ¬ (Function.update proc p after q).Creating hash (hash upstream) := by
    intro q hq
    rcases update_cases (Proc.Creating hash · (hash upstream)) hq with
      ⟨-, hafter⟩ | ⟨hne, hother⟩
    · exact hcreating hafter
    · exact hne (hkept.one q p hother hbefore)
  refine ⟨?_, ?_, fun q r hq ↦ absurd hq (hnone q), ?_⟩
  · rw [lookup_insert]
    refine iff_of_false (nofun) fun ⟨q, hq⟩ ↦ ?_
    rcases update_cases (Proc.Making hash · (hash upstream)) hq with ⟨-, hafter⟩ | ⟨-, hother⟩
    · exact hmaking hafter
    · cases hempty.symm.trans (hkept.missing.mpr ⟨q, hother⟩)
  · rw [lookup_insert]
    exact iff_of_false (nofun) fun ⟨q, hq⟩ ↦ hnone q hq
  · rw [lookup_insert]
    rintro other ⟨⟩
    rfl

theorem Kept.insert (hkept : Kept hash cache proc) {index : Index U}
    (hentry : KeptAt hash (cache.insert key index) (Function.update proc p after) key)
    (hothers : ∀ other, other ≠ key → (after.Making hash other ↔ (proc p).Making hash other) ∧
      (after.Creating hash other ↔ (proc p).Creating hash other))
    (hpresent : ∀ other, Present cache other → Present (cache.insert key index) other)
    (hopened : ∀ other, after.Opened hash other → Present (cache.insert key index) other)
    (htodo : after.todo = (proc p).todo) :
    Kept hash (cache.insert key index) (Function.update proc p after) := by
  refine ⟨fun other ↦ ?_, fun q other hq ↦ ?_, fun q other hq ↦ mem_insert.mpr (.inr ?_)⟩
  · by_cases heq : other = key
    · exact heq ▸ hentry
    · exact (hkept.entries other).congr (lookup_insert_of_ne cache heq)
        (hothers other heq).1 (hothers other heq).2
  · rcases update_cases (Proc.Opened hash · other) hq with ⟨-, hafter⟩ | ⟨-, hother⟩
    · exact hopened other hafter
    · exact hpresent other (hkept.opened q other hother)
  · rcases update_cases (other ∈ Proc.todo ·) hq with ⟨-, hafter⟩ | ⟨-, hother⟩
    · exact hkept.listed p other (htodo ▸ hafter)
    · exact hkept.listed q other hother

/-- A step keeps what the cache has of the entries.

Assumes: only one process makes an entry. -/
theorem Kept.step (hkept : Kept hash cache proc)
    (hunique : ∀ key q, (proc p).Making hash key → (proc q).Making hash key → q = p)
    (hstep : CacheStep hash cache (proc p) after cache') :
    Kept hash cache' (Function.update proc p after) := by
  cases hstep with
  | same hmaking hcreating hopened htodo =>
    refine ⟨fun key ↦ (hkept.entries key).congr rfl (hmaking key) (hcreating key),
      fun q key hq ↦ ?_, fun q key hq ↦ ?_⟩
    · rcases update_cases (Proc.Opened hash · key) hq with ⟨-, hafter⟩ | ⟨-, hother⟩
      · exact (hopened key hafter).elim (hkept.opened p key) id
      · exact hkept.opened q key hother
    · rcases update_cases (key ∈ Proc.todo ·) hq with ⟨-, hafter⟩ | ⟨-, hother⟩
      · exact (htodo key hafter).elim (hkept.listed p key) id
      · exact hkept.listed q key hother
  | makeDir key habsent hbefore hmaking hcreating hopened htodo =>
    refine hkept.insert ((hkept.entries key).makeDir habsent ((hmaking key).mpr rfl)
      (hcreating key)) (fun other hne ↦ ⟨?_, ?_⟩) (fun other hother ↦ ?_)
      (fun other hother ↦ absurd hother (hopened other)) htodo
    · exact iff_of_false (fun h ↦ hne ((hmaking other).mp h)) (hbefore other).1
    · exact iff_of_false (hcreating other) (hbefore other).2
    · refine hother.insert fun heq ↦ ?_
      obtain ⟨index, hindex, -⟩ := hother
      cases habsent.symm.trans (heq ▸ hindex)
  | create key hbefore hnew hmaking hcreating hopened htodo =>
    refine hkept.insert ((hkept.entries key).create hbefore (fun q ↦ hunique key q hbefore)
      (hmaking key) ((hcreating key).mpr rfl)) (fun other hne ↦ ⟨?_, ?_⟩)
      (fun other hother ↦ hother.insert nofun) (fun other hother ↦ ?_) htodo
    · refine iff_of_false (hmaking other) fun h ↦ hne ?_
      exact some_inj.mp (h.2.symm.trans hbefore.2)
    · exact iff_of_false (fun h ↦ hne ((hcreating other).mp h)) (hnew other)
    · rw [hopened other hother]
      exact ⟨.empty, lookup_insert cache, nofun⟩
  | flush upstream hbefore hmaking hcreating hopened htodo =>
    refine hkept.insert ((hkept.entries _).flush hbefore (hmaking _).2 (hcreating _))
      (fun other hne ↦ ⟨?_, ?_⟩) (fun other hother ↦ hother.insert nofun)
      (fun other hother ↦ absurd hother (hopened other)) htodo
    · exact iff_of_false (hmaking other).2 (hmaking other).1
    · refine iff_of_false (hcreating other) fun h ↦ hne ?_
      exact some_inj.mp (h.2.2.symm.trans hbefore.2.2)

end

/-! ### What holds in all interleavings -/

section

variable {ι U K N : Type*} (hash : U → K) [DecidableEq K]

/-- The locks are as the table says, and the entries of the cache as the processes have made them.
-/
structure Inv (w : World ι U K N) : Prop where
  owned : Owned (Proc.holds hash) w.owner w.proc
  kept : Kept hash w.cache w.proc

/-- The entries of the cache have their indexes, as completed runs leave them. -/
def Complete (cache : Finmap fun _ : K ↦ Index U) : Prop :=
  ∀ key index, cache.lookup key = some index → ∃ upstream, index = .line upstream ∧
    hash upstream = key

variable {hash} in
theorem Initial.inv {w : World ι U K N} (hinit : Initial w) (hcomplete : Complete hash w.cache) :
    Inv hash w := by
  have hphase : ∀ p, (w.proc p).phase = .start := fun p ↦ (hinit.start p).1
  refine ⟨hinit.owned hash, fun key ↦ ⟨?_, ?_, fun p q hp ↦ ?_, fun upstream hline ↦ ?_⟩,
    fun p key hp ↦ ?_, fun p key hp ↦ ?_⟩
  · refine iff_of_false (fun hmissing ↦ ?_) fun hmaking ↦ ?_
    · obtain ⟨upstream, hline, -⟩ := hcomplete key _ hmissing
      cases hline
    · obtain ⟨p, hp⟩ := hmaking
      rw [Proc.Making, hphase] at hp
      cases hp.1
  · refine iff_of_false (fun hempty ↦ ?_) fun hcreating ↦ ?_
    · obtain ⟨upstream, hline, -⟩ := hcomplete key _ hempty
      cases hline
    · obtain ⟨p, hp⟩ := hcreating
      rw [Proc.Creating, hphase] at hp
      cases hp.2.1
  · rw [Proc.Creating, hphase] at hp
    cases hp.2.1
  · obtain ⟨upstream', hline', hkey⟩ := hcomplete key _ hline
    obtain rfl := Index.line.inj hline'
    exact hkey
  · exact absurd hp (not_opened_of_phase hash (by rw [hphase]; rfl) key)
  · rw [(hinit.start p).2] at hp
    cases hp

/-- If the process looks through the cache, the entry that it comes to has an index, and its index
is not one that is still to be written out. -/
def LooksClear (w : World ι U K N) (e : Event ι K) : Prop :=
  ∀ key todo, (w.proc e.who).jobs ≠ [] → (w.proc e.who).todo = key :: todo →
    ((w.proc e.who).phase = .scan → ∀ q, ¬ (w.proc q).Making hash key) ∧
      ((w.proc e.who).phase = .read → ∀ q, ¬ (w.proc q).Creating hash key)

def NobodyDied (w : World ι U K N) : Prop := ∀ p, (w.proc p).phase ≠ .died

/-! ### Who can die -/

/-- The check that a process comes to fails. -/
def Dies (cache : Finmap fun _ : K ↦ Index U) (x : Proc U K N) : Prop :=
  match x.jobs, x.phase with
  | [], _ => False
  | _ :: _, .scan => ∃ key todo, x.todo = key :: todo ∧ ¬ Present cache key
  | _ :: _, .read =>
    ∃ key todo, x.todo = key :: todo ∧ ∀ upstream, cache.lookup key ≠ some (.line upstream)
  | job :: _, .haveCache => cache.lookup (hash job.upstream) = some .missing
  | job :: _, .verify =>
    x.created = false ∧ cache.lookup (hash job.upstream) ≠ some (.line job.upstream)
  | _ :: _, _ => False

section

variable {hash} {w : World ι U K N}

variable {key : K} {p : ι}

/-- Who is creating the entry of a process that has all its locks is this process itself. -/
theorem Inv.creating_eq (hinv : Inv hash w) {p q : ι} (hcache : (w.proc p).holds hash .cache)
    (hentry : (w.proc p).holds hash (.entry key)) (hq : (w.proc q).Creating hash key) : q = p := by
  obtain ⟨-, hphase, hkey⟩ := hq
  have hlocks : (w.proc q).phase.holdsCache ∨ (w.proc q).phase.holdsEntry := by
    revert hphase
    cases (w.proc q).phase <;> decide
  rcases hlocks with hlock | hlock
  · have hholds : (w.proc q).holds hash .cache := by
      refine ⟨fun hnil ↦ ?_, hlock⟩
      rw [Proc.key, hnil] at hkey
      cases hkey
    exact hinv.owned.exclusive hholds hcache
  · have hholds : (w.proc q).holds hash (.entry key) := ⟨hkey, hlock⟩
    exact hinv.owned.exclusive hholds hentry

/-- The look at an entry fails if and only if the entry is being made. -/
theorem Inv.scan_iff (hinv : Inv hash w) (hlisted : key ∈ (w.proc p).todo) :
    ¬ Present w.cache key ↔ ∃ q, (w.proc q).Making hash key := by
  rw [← (hinv.kept.entries key).missing, not_present_iff, or_iff_right]
  intro hnone
  exact lookup_eq_none.mp hnone (hinv.kept.listed p key hlisted)

/-- Reading the index of an entry that has one fails if and only if it is still to be written out.
-/
theorem Inv.read_iff (hinv : Inv hash w) (hopened : (w.proc p).Opened hash key) :
    (∀ upstream, w.cache.lookup key ≠ some (.line upstream)) ↔
      ∃ q, (w.proc q).Creating hash key := by
  rw [← (hinv.kept.entries key).empty]
  obtain ⟨index, hindex, hthere⟩ := hinv.kept.opened p key hopened
  rw [hindex]
  cases index with
  | missing => exact absurd rfl hthere
  | empty | line upstream => simp

/-- An entry that is opened under the lock of the cache has an index. -/
theorem Inv.open_right (hinv : Inv hash w) (hcache : (w.proc p).holds hash .cache)
    (hphase : (w.proc p).phase = .haveCache) (key : K) : w.cache.lookup key ≠ some .missing := by
  intro hmissing
  obtain ⟨q, hq⟩ := (hinv.kept.entries key).missing.mp hmissing
  obtain rfl := hinv.owned.exclusive (holds_of_making hash hq) hcache
  cases hphase.symm.trans hq.1

/-- An index that is compared under both locks is the right one. -/
theorem Inv.verify_right (hinv : Inv hash w) (hhash : Function.Injective hash) {upstream : U}
    (hcache : (w.proc p).holds hash .cache)
    (hentry : (w.proc p).holds hash (.entry (hash upstream)))
    (hopened : (w.proc p).Opened hash (hash upstream)) (hcreated : (w.proc p).created = false) :
    w.cache.lookup (hash upstream) = some (.line upstream) := by
  obtain ⟨index, hindex, hthere⟩ := hinv.kept.opened p _ hopened
  cases index with
  | missing => exact absurd rfl hthere
  | empty =>
    obtain ⟨q, hq⟩ := (hinv.kept.entries _).empty.mp hindex
    obtain rfl := hinv.creating_eq hcache hentry hq
    cases hcreated.symm.trans hq.1
  | line other =>
    have hsame := (hinv.kept.entries _).right other hindex
    rw [hindex, hhash hsame]

/-- Under the invariant the only check that can fail is the look through the cache, at an entry that
is being made.

Assumes: different upstreams have different hashes. -/
theorem Inv.dies_iff (hinv : Inv hash w) (hhash : Function.Injective hash) (e : Event ι K) :
    Dies hash w.cache (w.proc e.who) ↔ ¬ LooksClear hash w e := by
  have hidle : (w.proc e.who).phase ≠ .scan → (w.proc e.who).phase ≠ .read →
      LooksClear hash w e := fun hscan hread key todo _ _ ↦
    ⟨fun h ↦ absurd h hscan, fun h ↦ absurd h hread⟩
  cases hjobs : (w.proc e.who).jobs with
  | nil =>
    rw [Dies, hjobs]
    exact iff_of_false id fun hclear ↦ hclear fun key todo hsome ↦ absurd hjobs hsome
  | cons job rest =>
    have hsome : (w.proc e.who).jobs ≠ [] := by
      rw [hjobs]
      exact cons_ne_nil job rest
    have hkey : (w.proc e.who).key hash = some (hash job.upstream) := by
      rw [Proc.key, hjobs]
      rfl
    rw [Dies, hjobs]
    cases hphase : (w.proc e.who).phase with
    | scan =>
      constructor
      · rintro ⟨key, todo, htodo, hmissing⟩ hclear
        have hlisted : key ∈ (w.proc e.who).todo := htodo ▸ (.head _)
        obtain ⟨q, hq⟩ := (hinv.scan_iff hlisted).mp hmissing
        exact (hclear key todo hsome htodo).1 hphase q hq
      · intro hblocked
        by_contra hfine
        refine hblocked fun key todo _ htodo ↦ ⟨fun _ q hq ↦ hfine ?_, fun h ↦ ?_⟩
        · have hlisted : key ∈ (w.proc e.who).todo := htodo ▸ (.head _)
          exact ⟨key, todo, htodo, (hinv.scan_iff hlisted).mpr ⟨q, hq⟩⟩
        · cases hphase.symm.trans h
    | read =>
      have hopened : ∀ {key todo}, (w.proc e.who).todo = key :: todo →
          (w.proc e.who).Opened hash key := fun htodo ↦ .inr ⟨hphase, by rw [htodo]; rfl⟩
      constructor
      · rintro ⟨key, todo, htodo, hindex⟩ hclear
        obtain ⟨q, hq⟩ := (hinv.read_iff (hopened htodo)).mp hindex
        exact (hclear key todo hsome htodo).2 hphase q hq
      · intro hblocked
        by_contra hfine
        refine hblocked fun key todo _ htodo ↦ ⟨fun h ↦ ?_, fun _ q hq ↦ hfine ?_⟩
        · cases hphase.symm.trans h
        · exact ⟨key, todo, htodo, (hinv.read_iff (hopened htodo)).mpr ⟨q, hq⟩⟩
    | haveCache =>
      have hcache : (w.proc e.who).holds hash .cache := ⟨hsome, by rw [hphase]; rfl⟩
      exact iff_of_false (hinv.open_right hcache hphase _)
        (not_not_intro (hidle (by rw [hphase]; decide) (by rw [hphase]; decide)))
    | verify =>
      have hcache : (w.proc e.who).holds hash .cache := ⟨hsome, by rw [hphase]; rfl⟩
      have hentry : (w.proc e.who).holds hash (.entry (hash job.upstream)) :=
        ⟨hkey, by rw [hphase]; rfl⟩
      have hopened : (w.proc e.who).Opened hash (hash job.upstream) := .inl ⟨.inr hphase, hkey⟩
      exact iff_of_false (fun h ↦ h.2 (hinv.verify_right hhash hcache hentry hopened h.1))
        (not_not_intro (hidle (by rw [hphase]; decide) (by rw [hphase]; decide)))
    | _ =>
      exact iff_of_false id
        (not_not_intro (hidle (by rw [hphase]; decide) (by rw [hphase]; decide)))

end

/-! ### Every interleaving -/

variable {hash} [DecidableEq ι] [DecidableEq U] [DecidableEq N] {w w' : World ι U K N}
  {e : Event ι K}

theorem Inv.exec (hinv : Inv hash w) (e : Event ι K) : Inv hash (exec hash w e) := by
  refine ⟨owned_exec hinv.owned e, ?_⟩
  rw [Processes.exec]
  cases hstep : step hash w e with
  | none => exact hinv.kept
  | some w' =>
    obtain ⟨after, hproc, -, hcache⟩ := step_moves hash hstep
    rw [getD_some, hproc]
    exact hinv.kept.step (fun key q hp hq ↦
      hinv.owned.exclusive (holds_of_making hash hq) (holds_of_making hash hp)) hcache

theorem exec_other {q : ι} (hq : q ≠ e.who) : (exec hash w e).proc q = w.proc q := by
  rw [exec]
  cases hstep : step hash w e with
  | none => rfl
  | some w' =>
    obtain ⟨after, hproc, -⟩ := step_moves hash hstep
    rw [getD_some, hproc, update_of_ne hq]

/-- A process dies exactly if the check that it comes to fails. -/
theorem died_iff (halive : (w.proc e.who).phase ≠ .died) :
    ((exec hash w e).proc e.who).phase = .died ↔ Dies hash w.cache (w.proc e.who) := by
  cases hjobs : (w.proc e.who).jobs with
  | nil =>
    rw [exec, step]
    simp only [hjobs, Dies, iff_false]
    exact halive
  | cons job rest =>
    cases hphase : (w.proc e.who).phase with
    | scan =>
      simp only [exec, step, Dies, hjobs, hphase, not_present_iff]
      cases htodo : (w.proc e.who).todo with
      | nil => simp [World.put]
      | cons key todo =>
        cases hindex : w.cache.lookup key with
        | none => simp [hindex, World.die, World.put]
        | some index => cases index <;> simp [hindex, World.die, World.put]
    | read =>
      simp only [exec, step, Dies, hjobs, hphase]
      cases htodo : (w.proc e.who).todo with
      | nil => simp [World.put]
      | cons key todo =>
        cases hindex : w.cache.lookup key with
        | none => simp [hindex, World.die, World.put]
        | some index => cases index <;> simp [hindex, World.die, World.put]
    | haveCache =>
      simp only [exec, step, Dies, hjobs, hphase]
      cases hindex : w.cache.lookup (hash job.upstream) with
      | none => simp [World.put]
      | some index => cases index <;> simp [World.die, World.put]
    | verify =>
      simp only [exec, step, Dies, hjobs, hphase]
      split_ifs with hright
      · rw [Bool.or_eq_true, decide_eq_true_eq] at hright
        refine iff_of_false (by simp [World.put]) fun hwrong ↦ ?_
        rcases hright with htrue | hline
        · cases hwrong.1.symm.trans htrue
        · exact hwrong.2 hline
      · rw [Bool.or_eq_true, decide_eq_true_eq, not_or, Bool.not_eq_true] at hright
        exact iff_of_true (by simp [World.die, World.put]) hright
    | start =>
      simp only [exec, step, Dies, hjobs, hphase]
      split_ifs <;> simp [World.put, hphase]
    | wantCache | wantEntry | wantOutput =>
      simp only [exec, step, Dies, hjobs, hphase, World.lock]
      split_ifs <;> simp [World.put, hphase]
    | vcs | gotten =>
      simp only [exec, step, Dies, hjobs, hphase]
      split_ifs <;> simp [World.put]
    | make | madeDir | release | install | close | unlock =>
      simp [exec, step, Dies, hjobs, hphase, World.put, World.unlock]
    | died => exact absurd hphase halive

end

end LumoSQL.NotFork.Processes

import PsobIndexer.Ticks
/-!
# Concurrent probes

Every chain has its own task, and all tasks probe the same unprobed parents:
each takes a snapshot of them, waits for the explorer, and records the replies
one by one. Between two steps of a task the others go on. A task that got no
answer can overwrite what another task has found out in the meantime; this is
the only way a confirmation gets lost (`mainnet_kept`).
-/
open Lib

namespace PsobIndexer

open Database

/-! ## Tasks and their steps -/

/-- Where a task is in `classify_pending_parents`: waiting for the replies, or
recording them. A task with nothing to record is not in it. -/
inductive Phase where
  | asked (parents : List Hash32)
  | answered (results : List (Hash32 × Option UInt64))

/-- The parents a task has still to record. -/
def Phase.parents : Phase → List Hash32
  | asked parents => parents
  | answered results => results.map Prod.fst

/-- The shared store and the tasks. -/
structure Node (τ : Type) where
  db : Database
  phase : τ → Phase

inductive Action (τ : Type) where
  | snapshot (task : τ) (iter : List (Hash32 × StoredParent) → List (Hash32 × StoredParent))
  /-- One reply for each parent asked for. -/
  | receive (task : τ) (reply : Hash32 → Option UInt64)
  /-- The next `classify_parent`, whose write may fail. -/
  | apply (task : τ) (commit : Bool)
  /-- Anything else a task does to the store. -/
  | store (op : StoreOp)

/-- What a step does to parents: a snapshot, or one recorded reply. -/
inductive Event (τ : Type) where
  | took (task : τ)
  | recorded (task : τ) (parent : Hash32) (ltc_height : Option UInt64)
  deriving DecidableEq

section Sha
variable {τ : Type} [DecidableEq τ] (sha256d : Bytes → Hash32)

def Node.setPhase (n : Node τ) (task : τ) (p : Phase) : Node τ := { n with phase := Function.update n.phase task p }

/-- One step. A step that is not the task's next one does nothing. -/
def Action.run (n : Node τ) : Action τ → Node τ
  | snapshot task iter =>
    match n.phase task with
    | .answered [] => n.setPhase task (.asked (n.db.unclassifiedParents iter))
    | _ => n
  | receive task reply =>
    match n.phase task with
    | .asked parents => n.setPhase task (.answered (parents.map (fun p => (p, reply p))))
    | .answered _ => n
  | apply task commit =>
    match n.phase task with
    | .answered ((parent, ltc_height) :: results) =>
      match n.db.classifyParent commit parent ltc_height with
      | (.error _, db) => { n with db := db }.setPhase task (.answered [])
      | (.ok (), db) => { n with db := db }.setPhase task (.answered results)
    | _ => n
  | store op => { n with db := op.run sha256d n.db }

def Action.event (n : Node τ) : Action τ → Option (Event τ)
  | snapshot task _ =>
    match n.phase task with
    | .answered [] => some (.took task)
    | _ => none
  | apply task _ =>
    match n.phase task with
    | .answered ((parent, ltc_height) :: _) => some (.recorded task parent ltc_height)
    | _ => none
  | _ => none

def runNode (n : Node τ) (as : List (Action τ)) : Node τ := as.foldl (Action.run sha256d) n

/-- What a step does to the node and what happens to parents in it: nothing
where it is not the task's next one. -/
inductive Action.Does (n : Node τ) : Action τ → Node τ → Option (Event τ) → Prop
  | idle (a : Action τ) : Does n a n none
  | snapshot (task : τ) (iter : List (Hash32 × StoredParent) → List (Hash32 × StoredParent)) :
    n.phase task = .answered [] →
      Does n (.snapshot task iter) (n.setPhase task (.asked (n.db.unclassifiedParents iter))) (some (.took task))
  | receive (task : τ) (reply : Hash32 → Option UInt64) (parents : List Hash32) : n.phase task = .asked parents →
      Does n (.receive task reply) (n.setPhase task (.answered (parents.map (fun p => (p, reply p))))) none
  | apply (task : τ) (commit : Bool) (parent : Hash32) (ltc_height : Option UInt64)
    (results : List (Hash32 × Option UInt64)) : n.phase task = .answered ((parent, ltc_height) :: results) →
      Does n (.apply task commit) ({ n with db := (n.db.classifyParent commit parent ltc_height).2 }.setPhase task
        (.answered (if commit then results else []))) (some (.recorded task parent ltc_height))
  | store (op : StoreOp) : Does n (.store op) { n with db := op.run sha256d n.db } none

/-! ## One task alone -/

theorem apply_run (n : Node τ) (task : τ) (commit : Bool) {p : Hash32} {x : Option UInt64}
    {results : List (Hash32 × Option UInt64)} (hphase : n.phase task = .answered ((p, x) :: results)) :
    (Action.apply task commit).run sha256d n = { n with db := (n.db.classifyParent commit p x).2 }.setPhase task
      (.answered (if commit then results else [])) := by
  have hfst := classifyParent_fst commit n.db p x
  unfold Action.run
  simp only [hphase]
  split <;> rename_i hr <;> rw [hr] at hfst ⊢ <;> cases commit <;> simp at hfst ⊢

theorem Action.does (n : Node τ) (a : Action τ) : a.Does sha256d n (a.run sha256d n) (a.event n) := by
  cases a with
  | snapshot task iter =>
    unfold Action.run Action.event
    simp only
    split
    · exact .snapshot task iter ‹_›
    · exact .idle _
  | receive task reply =>
    unfold Action.run Action.event
    simp only
    split
    · exact .receive task reply _ ‹_›
    · exact .idle _
  | apply task commit =>
    cases hphase : n.phase task with
    | asked parents =>
      unfold Action.run Action.event
      simp only [hphase]
      exact .idle _
    | answered results =>
      cases results with
      | nil =>
        unfold Action.run Action.event
        simp only [hphase]
        exact .idle _
      | cons r results =>
        rw [apply_run sha256d n task commit hphase]
        unfold Action.event
        simp only [hphase]
        exact .apply task commit _ _ results hphase
  | store op => exact .store op

/-- A task with nothing to record does not change the store. -/
theorem runNode_stopped (task : τ) (commits : Hash32 → Bool) (parents : List Hash32) {n : Node τ}
    (hphase : n.phase task = .answered []) :
    (runNode sha256d n (parents.map (fun p => .apply task (commits p)))).db = n.db := by
  induction parents with
  | nil => rfl
  | cons p parents ih =>
    have hstay : (Action.apply task (commits p)).run sha256d n = n := by
      unfold Action.run
      simp only [hphase]
    rw [List.map_cons, runNode, List.foldl_cons, hstay]
    exact ih

/-- Undisturbed, the steps of a task are `classify_pending_parents`. -/
theorem runNode_alone (n : Node τ) (task : τ) (R : ParentResolver) (net : Hash32 → Nat → String → Reply)
    (commits : Hash32 → Bool) (iter : List (Hash32 × StoredParent) → List (Hash32 × StoredParent))
    (hidle : n.phase task = .answered []) :
    (runNode sha256d n (.snapshot task iter :: .receive task (fun p => (R.resolve (net p) p).1) ::
      (n.db.unclassifiedParents iter).map (fun p => .apply task (commits p)))).db =
        (classifyPendingParents R net commits iter n.db).2 := by
  have hloop : ∀ (parents : List Hash32) (n : Node τ),
      n.phase task = .answered (parents.map (fun p => (p, (R.resolve (net p) p).1))) →
      (runNode sha256d n (parents.map (fun p => .apply task (commits p)))).db =
        (classifyLoop commits n.db (parents.map (fun p => (p, (R.resolve (net p) p).1)))).2 := by
    intro parents
    induction parents with
    | nil => exact fun _ _ => rfl
    | cons p parents ih =>
      intro n hphase
      rw [List.map_cons] at hphase
      rw [List.map_cons, List.map_cons, classifyLoop_cons, runNode, List.foldl_cons, apply_run sha256d n task _ hphase]
      cases hc : commits p with
      | true => exact ih _ (Function.update_self task _ _)
      | false =>
        -- the loop stops, and the steps that are left find nothing to record
        exact runNode_stopped sha256d task commits parents (Function.update_self task _ _)
  have hsnap : (Action.snapshot task iter).run sha256d n = n.setPhase task (.asked (n.db.unclassifiedParents iter)) := by
    unfold Action.run
    simp only [hidle]
  have hreceive : ∀ reply, (Action.receive task reply).run sha256d
      (n.setPhase task (.asked (n.db.unclassifiedParents iter))) =
        (n.setPhase task (.asked (n.db.unclassifiedParents iter))).setPhase task
          (.answered ((n.db.unclassifiedParents iter).map (fun p => (p, reply p)))) := by
    intro reply
    have hasked : (n.setPhase task (.asked (n.db.unclassifiedParents iter))).phase task =
        .asked (n.db.unclassifiedParents iter) := Function.update_self task _ _
    unfold Action.run
    simp only [hasked]
  rw [runNode, List.foldl_cons, List.foldl_cons, hsnap, hreceive]
  refine (hloop _ _ (Function.update_self task _ _)).trans ?_
  unfold classifyPendingParents
  simp only
  split_ifs with hnil
  · rw [hnil]
    rfl
  · rfl

/-! ## What the other calls do to parents -/

/-- The calls of the tasks that are not part of a probe. -/
def StoreOp.Other : StoreOp → Prop
  | .classifyParent _ _ => False
  | .reopen => False
  | op => op.Regular

variable {sha256d}

/-- A batch adds unprobed parents and changes no record. -/
theorem foldl_insertOne_parents {rows : List BlockRow} (hrows : ∀ row ∈ rows, Witnessed row) (db : Database) (p : Hash32) :
    let db' := rows.foldl (insertOne sha256d) db
    (db'.cache_parents.get? p = db.cache_parents.get? p ∨
      db.cache_parents.get? p = none ∧ ∃ sp, db'.cache_parents.get? p = some sp ∧ sp.parent_state = 0) ∧
    db'.redb.parent_blocks = db.redb.parent_blocks := by
  induction rows generalizing db with
  | nil => exact ⟨.inl rfl, rfl⟩
  | cons row rows ih =>
    obtain ⟨hrow, hrows⟩ := List.forall_mem_cons.1 hrows
    obtain ⟨hrest, htable⟩ := ih hrows (db.insertOne sha256d row)
    refine ⟨?_, htable.trans (insertOne_frame sha256d db row).1⟩
    obtain ⟨aux, haux, -⟩ := hrow
    have hone : (db.insertOne sha256d row).cache_parents.get? p = db.cache_parents.get? p ∨
        db.cache_parents.get? p = none ∧ (db.insertOne sha256d row).cache_parents.get? p = some (newParent sha256d aux) := by
      rw [insertOne_eq db haux]
      simp only
      split_ifs with hc
      · exact .inl rfl
      · rw [KMap.get?_insert]
        split_ifs with hp
        · right
          refine ⟨?_, rfl⟩
          rw [hp]
          simpa [KMap.contains] using hc
        · exact .inl rfl
    rw [List.foldl_cons]
    rcases hone with hsame | ⟨hnone, hnew⟩
    · rw [hsame] at hrest
      exact hrest
    · right
      refine ⟨hnone, ?_⟩
      rcases hrest with hsame | ⟨habs, -⟩
      · exact ⟨_, hsame.trans hnew, rfl⟩
      · rw [hnew] at habs
        cases habs

/-- The other calls keep a record, remove it, or add an unprobed one. -/
theorem StoreOp.Other.parents {op : StoreOp} (hop : op.Other) (db : Database) (p : Hash32) :
    let db' := op.run sha256d db
    (db'.cache_parents.get? p = db.cache_parents.get? p ∨ db'.cache_parents.get? p = none ∨
      db.cache_parents.get? p = none ∧ ∃ sp, db'.cache_parents.get? p = some sp ∧ sp.parent_state = 0) ∧
    (db'.redb.parent_blocks.get? p = db.redb.parent_blocks.get? p ∨ db'.redb.parent_blocks.get? p = none) := by
  cases op with
  | insertBlocks rows =>
    have hrun : (StoreOp.insertBlocks rows).run sha256d db = rows.foldl (insertOne sha256d) db :=
      congrArg Prod.snd (insertBlocks_ok sha256d db rows hop)
    obtain ⟨hcache, htable⟩ := foldl_insertOne_parents hop db p
    rw [hrun]
    refine ⟨?_, .inl (by rw [htable])⟩
    rcases hcache with hsame | hnew
    · exact .inl hsame
    · exact .inr (.inr hnew)
  | rollbackFrom c from_height =>
    obtain ⟨-, -, htable, -, -, hcache⟩ := rewindCursor_frame true (db.rolledBack sha256d c from_height) c from_height
    simp only [StoreOp.run]
    rw [rollbackFrom_true, htable, hcache]
    simp only [rolledBack, KMap.get?_eraseAll]
    split_ifs
    · exact ⟨.inr (.inl rfl), .inr rfl⟩
    · exact ⟨.inl rfl, .inl rfl⟩
  | pruneBefore c below =>
    simp only [StoreOp.run]
    rw [pruneBefore_true sha256d db c hop]
    exact ⟨.inl rfl, .inl rfl⟩
  | classifyParent q x => exact hop.elim
  | setCursorHeight c h => exact ⟨.inl rfl, .inl rfl⟩
  | upsertChain c name electrs =>
    obtain ⟨m, hm⟩ := getMeta_frame db (chainKey c)
    simp only [StoreOp.run]
    unfold Database.upsertChain setMeta
    simp only [hm]
    split_ifs <;> exact ⟨.inl rfl, .inl rfl⟩
  | reopen => exact hop.elim

/-! ## Runs with their history -/

/-- A confirmed parent: the cached record says mainnet and has a height. -/
def Database.OnMainnet (db : Database) (p : Hash32) : Prop :=
  ∃ sp h, db.cache_parents.get? p = some sp ∧ sp.parent_state = 1 ∧ sp.ltc_height = some h

variable (sha256d)

/-- A node and what happened to its parents, newest first. No step reads it. -/
structure Traced (τ : Type) where
  node : Node τ
  history : List (Event τ)

def Traced.run (s : Traced τ) (a : Action τ) : Traced τ where
  node := a.run sha256d s.node
  history := (a.event s.node).toList ++ s.history

/-- What happened since the task's last snapshot. -/
def since (task : τ) (history : List (Event τ)) : List (Event τ) := history.takeWhile (· ≠ .took task)

/-- If the step records that a parent is not on mainnet, then nobody has
recorded it on mainnet since the snapshot this step belongs to. -/
def Action.Undisturbed (s : Traced τ) (a : Action τ) : Prop :=
  ∀ task p, a.event s.node = some (.recorded task p none) →
    ∀ task' h, .recorded task' p (some h) ∉ since task s.history

/-- A snapshot lists the parents in some order, and other calls are the tasks'. -/
def Action.Ordinary : Action τ → Prop
  | snapshot _ iter => ∀ l, (iter l).Perm l
  | store op => op.Other
  | _ => True

/-- A parent that a task has still to record is not on mainnet, unless somebody
has recorded it there since the task's snapshot. -/
def Traced.Sound (s : Traced τ) : Prop :=
  ∀ task p, p ∈ (s.node.phase task).parents → (∀ task' h, .recorded task' p (some h) ∉ since task s.history) →
    ¬ s.node.db.OnMainnet p

variable {sha256d}

theorem mem_since_cons {task : τ} {e e' : Event τ} {history : List (Event τ)} (hne : e ≠ .took task) :
    e' ∈ since task (e :: history) ↔ e' = e ∨ e' ∈ since task history := by
  unfold since
  rw [List.takeWhile_cons_of_pos (by simpa using hne), List.mem_cons]

theorem classifyParent_onMainnet {db : Database} {commit : Bool} {p q : Hash32} {x : Option UInt64} :
    (db.classifyParent commit p x).2.OnMainnet q ↔
      if q = p then (db.cache_parents.get? p).isSome = true ∧ x.isSome = true else db.OnMainnet q := by
  unfold Database.OnMainnet
  rw [classifyParent_cache, KMap.get?_modify]
  by_cases hq : q = p
  · rw [if_pos hq, if_pos hq]
    cases db.cache_parents.get? p with
    | none => simp
    | some sp => cases x <;> simp [StoredParent.classified]
  · rw [if_neg hq, if_neg hq]

theorem StoreOp.Other.onMainnet {op : StoreOp} (hop : op.Other) {db : Database} {p : Hash32}
    (h : (op.run sha256d db).OnMainnet p) : db.OnMainnet p := by
  obtain ⟨sp, height, hsp, hstate, hheight⟩ := h
  rcases (hop.parents db p).1 with hsame | hnone | ⟨-, sp', hsp', hzero⟩
  · exact ⟨sp, height, hsame ▸ hsp, hstate, hheight⟩
  · rw [hnone] at hsp
    cases hsp
  · rw [hsp'] at hsp
    cases hsp
    rw [hzero] at hstate
    cases hstate

theorem Node.mem_parents_setPhase {n : Node τ} {task task' : τ} {phase : Phase} {p : Hash32} :
    p ∈ ((n.setPhase task' phase).phase task).parents ↔
      if task = task' then p ∈ phase.parents else p ∈ (n.phase task).parents := by
  have hphase : (n.setPhase task' phase).phase = Function.update n.phase task' phase := rfl
  rw [hphase]
  by_cases htask : task = task'
  · subst htask
    rw [if_pos rfl, Function.update_self]
  · rw [if_neg htask, Function.update_of_ne htask]

/-- The step lemma: what a step leaves to record was there before, or is in a
new snapshot, which holds unprobed parents only. -/
theorem Action.Does.sound {n n' : Node τ} {a : Action τ} {e : Option (Event τ)} (h : a.Does sha256d n n' e)
    {history : List (Event τ)} (hs : Traced.Sound ⟨n, history⟩) (ha : a.Ordinary) :
    Traced.Sound ⟨n', e.toList ++ history⟩ := by
  intro task p hp hclean
  cases h with
  | idle => exact hs task p hp hclean
  | snapshot task' iter hphase =>
    rw [Node.mem_parents_setPhase] at hp
    split_ifs at hp with htask
    · obtain ⟨sp, hsp, hzero⟩ := (mem_unclassifiedParents ha).1 hp
      rintro ⟨sp', h, hsp', hone, -⟩
      obtain rfl := Option.some.inj (hsp.symm.trans hsp')
      rw [hzero] at hone
      cases hone
    · have hne : Event.took task' ≠ .took task := fun he => htask (Event.took.inj he).symm
      exact hs task p hp fun u h hmem => hclean u h ((mem_since_cons hne).2 (.inr hmem))
  | receive task' reply parents hphase =>
    refine hs task p ?_ hclean
    rw [Node.mem_parents_setPhase] at hp
    split_ifs at hp with htask
    · subst htask
      rw [hphase]
      simpa [Phase.parents] using hp
    · exact hp
  | apply task' commit q x results hphase =>
    have hne : Event.recorded task' q x ≠ .took task := fun he => by cases he
    have hbefore : ¬ n.db.OnMainnet p := by
      refine hs task p ?_ fun u h hmem => hclean u h ((mem_since_cons hne).2 (.inr hmem))
      rw [Node.mem_parents_setPhase] at hp
      by_cases htask : task = task'
      · subst htask
        rw [if_pos rfl] at hp
        rw [hphase]
        cases commit with
        | true => exact List.mem_cons_of_mem _ hp
        | false => cases hp
      · rwa [if_neg htask] at hp
    change ¬ (n.db.classifyParent commit q x).2.OnMainnet p
    rw [classifyParent_onMainnet]
    split_ifs with hq
    · rintro ⟨-, hx⟩
      obtain ⟨h, rfl⟩ := Option.isSome_iff_exists.1 hx
      exact hclean task' h ((mem_since_cons hne).2 (.inl (by rw [hq])))
    · exact hbefore
  | store op => exact fun hafter => hs task p hp hclean (StoreOp.Other.onMainnet ha hafter)

theorem Traced.Sound.step {s : Traced τ} (hs : s.Sound) {a : Action τ} (ha : a.Ordinary) : (s.run sha256d a).Sound :=
  (a.does sha256d s.node).sound hs ha

/-- `db'` still has `p` on mainnet, and its table holds no other verdict that
`db` did not hold. -/
def KeepsMainnet (db db' : Database) (p : Hash32) : Prop :=
  db'.OnMainnet p ∧ ∀ sp, db'.redb.parent_blocks.get? p = some sp →
    db.redb.parent_blocks.get? p = some sp ∨ sp.parent_state = 1

theorem KeepsMainnet.refl {db : Database} {p : Hash32} (hmain : db.OnMainnet p) : KeepsMainnet db db p :=
  ⟨hmain, fun _ hsp => .inl hsp⟩

theorem KeepsMainnet.trans {db₁ db₂ db₃ : Database} {p : Hash32} (h₁ : KeepsMainnet db₁ db₂ p)
    (h₂ : KeepsMainnet db₂ db₃ p) : KeepsMainnet db₁ db₃ p := by
  refine ⟨h₂.1, fun sp hsp => ?_⟩
  rcases h₂.2 sp hsp with hsp' | hstate
  · exact h₁.2 sp hsp'
  · exact .inr hstate

/-- A reply about another parent leaves `p` alone, and one that confirms `p`
writes what is there. -/
theorem classifyParent_keepsMainnet {db : Database} {p q : Hash32} {x : Option UInt64} (commit : Bool)
    (hmain : db.OnMainnet p) (hx : q = p → x.isSome = true) :
    KeepsMainnet db (db.classifyParent commit q x).2 p := by
  by_cases hq : p = q
  · subst hq
    obtain ⟨sp, h, hsp, -, -⟩ := id hmain
    refine ⟨by rw [classifyParent_onMainnet, if_pos rfl, hsp]; exact ⟨rfl, hx rfl⟩, fun sp' hsp' => ?_⟩
    unfold Database.classifyParent at hsp'
    cases commit with
    | false => exact .inl hsp'
    | true =>
      simp only [not_true, if_false, KMap.get?_modify, if_true, hsp, Option.map_some, KMap.get?_insert,
        Option.some.injEq] at hsp'
      right
      rw [← hsp', hx rfl]
      rfl
  · refine ⟨by rwa [classifyParent_onMainnet, if_neg hq], fun sp' hsp' => .inl ?_⟩
    unfold Database.classifyParent at hsp'
    cases commit with
    | false => exact hsp'
    | true =>
      simp only [not_true, if_false, KMap.get?_modify, if_true] at hsp'
      split at hsp'
      · exact hsp'
      · simpa [KMap.get?_insert, hq] using hsp'

theorem StoreOp.Other.keepsMainnet {op : StoreOp} (hop : op.Other) {db : Database} {p : Hash32}
    (hmain : db.OnMainnet p) (hstored : ((op.run sha256d db).cache_parents.get? p).isSome = true) :
    KeepsMainnet db (op.run sha256d db) p := by
  obtain ⟨hcache, htable⟩ := @StoreOp.Other.parents sha256d _ hop db p
  obtain ⟨sp, h, hsp, hstate, hheight⟩ := hmain
  constructor
  · rcases hcache with hkept | hgone | ⟨habs, -⟩
    · exact ⟨sp, h, hkept.trans hsp, hstate, hheight⟩
    · rw [hgone] at hstored
      cases hstored
    · rw [habs] at hsp
      cases hsp
  · intro sp' hsp'
    rcases htable with hkept | hgone
    · rw [hkept] at hsp'
      exact .inl hsp'
    · rw [hgone] at hsp'
      cases hsp'

/-- A step that is undisturbed keeps a confirmed parent that it does not remove,
and writes no other verdict to the table. -/
theorem Action.Does.keeps {n n' : Node τ} {a : Action τ} {e : Option (Event τ)} (h : a.Does sha256d n n' e)
    {history : List (Event τ)} (hs : Traced.Sound ⟨n, history⟩) (ha : a.Ordinary) {p : Hash32}
    (hu : ∀ task, e = some (.recorded task p none) → ∀ task' h, .recorded task' p (some h) ∉ since task history)
    (hmain : n.db.OnMainnet p) (hstored : (n'.db.cache_parents.get? p).isSome = true) : KeepsMainnet n.db n'.db p := by
  cases h with
  | idle => exact .refl hmain
  | snapshot => exact .refl hmain
  | receive => exact .refl hmain
  | apply task commit q x results hphase =>
    refine classifyParent_keepsMainnet commit hmain fun hq => ?_
    subst hq
    -- by the invariant the reply cannot be a missing answer
    cases x with
    | some h => rfl
    | none =>
      have hpending : q ∈ (n.phase task).parents := by
        rw [hphase]
        exact List.mem_cons_self
      exact absurd hmain (hs task q hpending (hu task rfl))
  | store op => exact StoreOp.Other.keepsMainnet ha hmain hstored

theorem Traced.Sound.keeps {s : Traced τ} (hs : s.Sound) {a : Action τ} (ha : a.Ordinary) (hu : a.Undisturbed s)
    {p : Hash32} (hmain : s.node.db.OnMainnet p)
    (hstored : ((s.run sha256d a).node.db.cache_parents.get? p).isSome = true) :
    KeepsMainnet s.node.db (s.run sha256d a).node.db p :=
  (a.does sha256d s.node).keeps hs ha (fun task => hu task p) hmain hstored

theorem foldl_run_node (as : List (Action τ)) (s : Traced τ) :
    (as.foldl (Traced.run sha256d) s).node = runNode sha256d s.node as := by
  induction as generalizing s with
  | nil => rfl
  | cons a as ih => exact ih (s.run sha256d a)

theorem Traced.Sound.foldl {s : Traced τ} (hs : s.Sound) {as : List (Action τ)} (has : ∀ a ∈ as, a.Ordinary) :
    (as.foldl (Traced.run sha256d) s).Sound := by
  induction as generalizing s with
  | nil => exact hs
  | cons a as ih =>
    obtain ⟨ha, has⟩ := List.forall_mem_cons.1 has
    exact ih (hs.step ha) has

theorem Traced.Sound.keeps_all {s : Traced τ} (hs : s.Sound) {as : List (Action τ)} (has : ∀ a ∈ as, a.Ordinary)
    (hu : Along (Traced.run sha256d) (fun s a => a.Undisturbed s) s as) {p : Hash32} (hmain : s.node.db.OnMainnet p)
    (hstored : ∀ bs, bs <+: as → ((runNode sha256d s.node bs).db.cache_parents.get? p).isSome = true) :
    KeepsMainnet s.node.db (runNode sha256d s.node as).db p := by
  induction as generalizing s with
  | nil => exact .refl hmain
  | cons a as ih =>
    obtain ⟨ha, has⟩ := List.forall_mem_cons.1 has
    have hone := hs.keeps ha hu.1 hmain (hstored [a] (List.prefix_append [a] as))
    exact hone.trans (ih (hs.step ha) has hu.2 hone.1
      fun bs hbs => hstored (a :: bs) (List.cons_prefix_cons.2 ⟨rfl, hbs⟩))

variable (sha256d)

/-- In a run whose steps are all undisturbed, a parent that is on mainnet at
some point is on mainnet for as long as it stays stored, in the cache and in
what is written to the table. -/
theorem mainnet_kept (db₀ : Database) (before after : List (Action τ)) (hord : ∀ a ∈ before ++ after, a.Ordinary)
    (hu : Along (Traced.run sha256d) (fun s a => a.Undisturbed s) ⟨⟨db₀, fun _ => .answered []⟩, []⟩ (before ++ after))
    (p : Hash32) :
    let n₀ : Node τ := ⟨db₀, fun _ => .answered []⟩
    let n := runNode sha256d n₀ before
    let n' := runNode sha256d n₀ (before ++ after)
    n.db.OnMainnet p →
    (∀ mid, mid <+: after → ((runNode sha256d n₀ (before ++ mid)).db.cache_parents.get? p).isSome = true) →
    n'.db.OnMainnet p ∧ ∀ sp, n'.db.redb.parent_blocks.get? p = some sp →
      n.db.redb.parent_blocks.get? p = some sp ∨ sp.parent_state = 1 := by
  intro n₀ n n' hmain hstored
  have happend : ∀ as, runNode sha256d n₀ (before ++ as) = runNode sha256d n as := fun as => List.foldl_append
  have hstart : Traced.Sound (⟨n₀, []⟩ : Traced τ) := fun task p hp => by cases hp
  have hs := @Traced.Sound.foldl τ _ sha256d _ hstart _ fun a ha => hord a (List.mem_append_left _ ha)
  have hnode := @foldl_run_node _ _ sha256d before ⟨n₀, []⟩
  rw [along_append] at hu
  have hkept := hs.keeps_all (fun a ha => hord a (List.mem_append_right _ ha)) hu.2 (p := p)
  rw [hnode] at hkept
  have hn' : n' = runNode sha256d n after := happend after
  rw [hn']
  exact hkept hmain fun bs hbs => by
    have := hstored bs hbs
    rwa [happend] at this

end Sha

/-! ## Two tasks -/

/-- Not the record of a missing answer. -/
def Event.definite {τ : Type} : Event τ → Bool
  | .recorded _ _ none => false
  | _ => true

theorem Action.undisturbed_of {τ : Type} [DecidableEq τ] {s : Traced τ} {a : Action τ}
    (h : (a.event s.node).all Event.definite = true) : a.Undisturbed s := by
  intro task p he
  rw [he] at h
  cases h

/-- Both tasks take their snapshot before either gets its reply, and the first
one records its reply. -/
def sampleOverlap (reply reply' : Option UInt64) : List (Action Bool) :=
  [.snapshot false (fun l => l), .snapshot true (fun l => l), .receive false (fun _ => reply),
    .receive true (fun _ => reply'), .apply false true]

theorem sampleOverlap_ordinary (reply reply' : Option UInt64) :
    ∀ a ∈ sampleOverlap reply reply' ++ [.apply true true], a.Ordinary := by
  simp [sampleOverlap, Action.Ordinary]

/-- The same reply twice: the parent is confirmed and stays so. -/
theorem mainnet_kept_same :
    (runNode sampleSha ⟨pendingDb, fun _ => .answered []⟩ (sampleOverlap (some 7) (some 7) ++ [.apply true true])).db.OnMainnet
      sampleParentId₁ := by
  have hu : Along (Traced.run sampleSha) (fun s a => (a.event s.node).all Event.definite = true)
      ⟨⟨pendingDb, fun _ => .answered []⟩, []⟩
      (sampleOverlap (some 7) (some 7) ++ [.apply true true]) := by
    decide +kernel
  have hu' : Along (Traced.run sampleSha) (fun s a => Action.Undisturbed s a) ⟨⟨pendingDb, fun _ => .answered []⟩, []⟩
      (sampleOverlap (some 7) (some 7) ++ [.apply true true]) :=
    Along.mono (fun _ _ h => Action.undisturbed_of h) hu
  have hmain : ((runNode sampleSha ⟨pendingDb, fun _ => .answered []⟩ (sampleOverlap (some 7) (some 7))).db.cache_parents.get?
      sampleParentId₁).map (fun sp => (sp.parent_state, sp.ltc_height)) = some (1, some 7) := by
    decide +kernel
  have hcached : ((runNode sampleSha ⟨pendingDb, fun _ => .answered []⟩ (sampleOverlap (some 7) (some 7) ++
      [.apply true true])).db.cache_parents.get? sampleParentId₁).isSome = true := by
    decide +kernel
  obtain ⟨sp, hsp, hval⟩ := Option.map_eq_some_iff.1 hmain
  obtain ⟨hstate, hheight⟩ := Prod.mk.inj hval
  have hkept := mainnet_kept sampleSha pendingDb (sampleOverlap (some 7) (some 7)) [.apply true true]
    (sampleOverlap_ordinary (some 7) (some 7)) hu' sampleParentId₁
  refine (hkept ⟨sp, 7, hsp, hstate, hheight⟩ fun mid hmid => ?_).1
  rcases List.prefix_cons_iff.1 hmid with rfl | ⟨t, rfl, ht⟩
  · rw [List.append_nil, hsp]
    rfl
  · rw [List.prefix_nil.1 ht]
    exact hcached

/-- The second task got no answer, and records that the parent the first one has
confirmed is a trial block. -/
theorem mainnet_lost :
    let n₀ : Node Bool := ⟨pendingDb, fun _ => .answered []⟩
    let record := fun as => ((runNode sampleSha n₀ as).db.getParent sampleParentId₁).1.map
      (fun sp => (sp.parent_state, sp.ltc_height))
    openDb sampleSha Redb.empty = .ok freshDb ∧ pendingDb = (freshDb.insertBlocks sampleSha true [(⟨63, 1⟩, sampleBlock₁ 1)]).2 ∧
      record (sampleOverlap (some 7) none) = some (1, some 7) ∧
      record (sampleOverlap (some 7) none ++ [.apply true true]) = some (2, none) := by
  refine ⟨rfl, rfl, ?_, ?_⟩ <;> decide +kernel

end PsobIndexer

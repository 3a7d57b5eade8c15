import Mathlib.Algebra.GroupWithZero.Nat
import MarketFeed.Proofs.Store.Sinks

/-!
# MarketFeed.Proofs.Store.Transaction

A batch is written to a PostgreSQL server as a whole or not at all.

* `Database.recorded`, `Database.sent` — a server that keeps a record, and so what it was sent.
* `Exchanged` — what a server can be sent for a batch: the transaction is not started, some row or
  the commit fails, or all of it is written.
* `Course`, `course` — the four ways that a transaction can go, with the states of the server.
* `Transacts` — a server whose tables only a commit changes, once a transaction has started.
* `batch_all_or_nothing` — on such a server, nothing is left of a batch that failed before its
  commit.
-/

namespace MarketFeed
namespace Store

/-! ## What a server is sent -/

/-- The statements that a server was sent, with the outcomes. -/
abbrev Record := List (Statement × Except String Nat)

/-- A statement that succeeded, with the number of rows that it affected. -/
def told (p : Statement × Nat) : Statement × Except String Nat := (p.1, .ok p.2)

namespace Batch

/-- The rows as they are sent. -/
def upserts : Batch → List Upsert
  | .bars rows => rows.map .ofBar
  | .ticks rows => rows.map .ofTick

end Batch

namespace Database

variable {σ : Type} (d : Database σ)

/-- The server with a record of what it was sent. -/
def recorded : Database (σ × Record) where
  execute st s := ((d.execute st s.1).1, (d.execute st s.1).2, s.2 ++ [(st, (d.execute st s.1).1)])

/-- All that the server is sent when a batch is written. -/
def sent (s : σ) (b : Batch) : Record := (d.recorded.write (s, []) b).2.2

@[simp] theorem recorded_execute (st : Statement) (s : σ) (log : Record) :
    d.recorded.execute st (s, log) =
      ((d.execute st s).1, (d.execute st s).2, log ++ [(st, (d.execute st s).1)]) := rfl

theorem write_eq (s : σ) (b : Batch) : d.write s b = d.persist b.upserts s := by
  cases b <;> rfl

end Database

/-! ## How a transaction can go -/

/-- Rows were sent one after another, all of them or up to the first that failed. -/
inductive SentRows (rows : List Statement) : Record → Except String Nat → Prop where
  | all (done : List (Statement × Nat)) (h : done.map Prod.fst = rows) :
      SentRows rows (done.map told) (.ok (done.map Prod.snd).sum)
  | failed (done : List (Statement × Nat)) (st : Statement) (rest : List Statement) (e : String)
      (h : rows = done.map Prod.fst ++ st :: rest) :
      SentRows rows (done.map told ++ [(st, .error e)]) (.error e)

theorem SentRows.cons {rows : List Statement} {new : Record} {r : Except String Nat}
    (h : SentRows rows new r) (st : Statement) (n : Nat) :
    SentRows (st :: rows) ((st, .ok n) :: new) (r.map (n + ·)) := by
  cases h with
  | all done h => exact .all ((st, n) :: done) (by rw [List.map_cons, h])
  | failed done st' rest e h =>
    exact .failed ((st, n) :: done) st' rest e (by rw [List.map_cons, List.cons_append, h])

/-- What a server was sent for some rows, and what came of it. -/
inductive Exchanged (rows : List Statement) : Record → Except String Nat → Prop where
  | unstarted (e : String) : Exchanged rows [(.start, .error e)] (.error e)
  | refused (first : Nat) (done : List (Statement × Nat)) (st : Statement) (rest : List Statement)
      (e : String) (back : Except String Nat) (h : rows = done.map Prod.fst ++ st :: rest) :
      Exchanged rows ((.start, .ok first) :: done.map told ++ [(st, .error e), (.rollback, back)])
        (.error e)
  | uncommitted (first : Nat) (done : List (Statement × Nat)) (e : String)
      (back : Except String Nat) (h : done.map Prod.fst = rows) :
      Exchanged rows
        ((.start, .ok first) :: done.map told ++ [(.commit, .error e), (.rollback, back)]) (.error e)
  | written (first : Nat) (done : List (Statement × Nat)) (last : Nat)
      (h : done.map Prod.fst = rows) :
      Exchanged rows ((.start, .ok first) :: done.map told ++ [(.commit, .ok last)])
        (.ok (done.map Prod.snd).sum)

section

variable {σ : Type} {d : Database σ}

/-- The rows are sent in order, up to the first failure, and their counts are added up. -/
theorem sentRows_of_executeAll (rows : List Statement) (s : σ) (log : Record) :
    ∃ new, d.recorded.executeAll rows (s, log) =
        ((d.executeAll rows s).1, (d.executeAll rows s).2, log ++ new) ∧
      SentRows rows new (d.executeAll rows s).1 := by
  induction rows generalizing s log with
  | nil => exact ⟨[], by simp [Database.executeAll], .all [] rfl⟩
  | cons st rest ih =>
    simp only [Database.executeAll, Database.recorded_execute]
    rcases d.execute st s with ⟨e | n, s₁⟩
    · exact ⟨[(st, .error e)], rfl, .failed [] st rest e rfl⟩
    · obtain ⟨new, hrest, hsent⟩ := ih s₁ (log ++ [(st, .ok n)])
      have hcons := hsent.cons st n
      dsimp only
      rw [hrest, List.append_assoc]
      rcases hall : d.executeAll rest s₁ with ⟨r, s₂⟩
      rw [hall] at hcons
      cases r <;> exact ⟨_, rfl, hcons⟩

/-- A transaction and what was sent for it, by where it ended. -/
inductive Course (d : Database σ) (rows : List Statement) (s : σ) :
    Except String Nat → σ → Record → Prop where
  | unstarted {e : String} {s₁ : σ} (hstart : d.execute .start s = (.error e, s₁)) :
      Course d rows s (.error e) s₁ [(.start, .error e)]
  | refused {first : Nat} {s₁ s₂ s₃ : σ} {new : Record} {e : String} {back : Except String Nat}
      (hstart : d.execute .start s = (.ok first, s₁))
      (hrows : d.executeAll rows s₁ = (.error e, s₂)) (hsent : SentRows rows new (.error e))
      (hback : d.execute .rollback s₂ = (back, s₃)) :
      Course d rows s (.error e) s₃ ((.start, .ok first) :: new ++ [(.rollback, back)])
  | uncommitted {first n : Nat} {s₁ s₂ s₃ s₄ : σ} {new : Record} {e : String}
      {back : Except String Nat} (hstart : d.execute .start s = (.ok first, s₁))
      (hrows : d.executeAll rows s₁ = (.ok n, s₂)) (hsent : SentRows rows new (.ok n))
      (hcommit : d.execute .commit s₂ = (.error e, s₃))
      (hback : d.execute .rollback s₃ = (back, s₄)) :
      Course d rows s (.error e) s₄
        ((.start, .ok first) :: new ++ [(.commit, .error e), (.rollback, back)])
  | written {first n last : Nat} {s₁ s₂ s₃ : σ} {new : Record}
      (hstart : d.execute .start s = (.ok first, s₁))
      (hrows : d.executeAll rows s₁ = (.ok n, s₂)) (hsent : SentRows rows new (.ok n))
      (hcommit : d.execute .commit s₂ = (.ok last, s₃)) :
      Course d rows s (.ok n) s₃ ((.start, .ok first) :: new ++ [(.commit, .ok last)])

/-- The record changes nothing, and there are no other ways. -/
theorem course (d : Database σ) (rows : List Statement) (s : σ) : ∃ new,
    d.recorded.transaction rows (s, []) =
      ((d.transaction rows s).1, (d.transaction rows s).2, new) ∧
    Course d rows s (d.transaction rows s).1 (d.transaction rows s).2 new := by
  simp only [Database.transaction, Database.recorded_execute]
  rcases hstart : d.execute .start s with ⟨e | first, s₁⟩
  · exact ⟨_, rfl, .unstarted hstart⟩
  obtain ⟨new, hrecorded, hsent⟩ :=
    sentRows_of_executeAll (d := d) rows s₁ [(.start, .ok first)]
  dsimp only [List.nil_append]
  rw [hrecorded]
  rcases hrows : d.executeAll rows s₁ with ⟨e | n, s₂⟩ <;> rw [hrows] at hsent
  · exact ⟨_, rfl, .refused hstart hrows hsent rfl⟩
  dsimp only
  rw [Database.recorded_execute]
  rcases hcommit : d.execute .commit s₂ with ⟨e | last, s₃⟩
  · refine ⟨_, ?_, .uncommitted hstart hrows hsent hcommit rfl⟩
    simp
  · exact ⟨_, rfl, .written hstart hrows hsent hcommit⟩

theorem Course.exchanged {rows : List Statement} {s s' : σ} {r : Except String Nat} {new : Record}
    (h : Course d rows s r s' new) : Exchanged rows new r := by
  cases h with
  | unstarted _ => exact .unstarted _
  | refused _ _ hsent _ =>
    cases hsent with
    | failed done st rest _ h =>
      rw [List.cons_append, List.append_assoc]
      exact .refused _ done st rest _ _ h
  | uncommitted _ _ hsent _ _ =>
    cases hsent with
    | all done h => exact .uncommitted _ done _ _ h
  | written _ _ hsent _ =>
    cases hsent with
    | all done h => exact .written _ done _ h

theorem told_ne_error {st : Statement} {e : String} {done : List (Statement × Nat)} :
    (st, .error e) ∉ done.map told := by
  simp [told]

theorem Exchanged.sum {rows : List Statement} {new : Record} {n : Nat}
    (h : Exchanged rows new (.ok n)) : ∃ (first : Nat) (done : List (Statement × Nat)) (last : Nat),
      done.map Prod.fst = rows ∧
      new = (.start, .ok first) :: done.map told ++ [(.commit, .ok last)] ∧
      n = (done.map Prod.snd).sum := by
  cases h with
  | written first done last h => exact ⟨first, done, last, h, rfl, rfl⟩

/-- A call fails only where something that was sent did. -/
theorem Exchanged.failed {rows : List Statement} {new : Record} {e : String}
    (h : Exchanged rows new (.error e)) : ∃ st, (st, .error e) ∈ new := by
  cases h with
  | unstarted => exact ⟨.start, List.mem_cons_self⟩
  | refused _ _ st => exact ⟨st, List.mem_append_right _ List.mem_cons_self⟩
  | uncommitted => exact ⟨.commit, List.mem_append_right _ List.mem_cons_self⟩

theorem Exchanged.ok_iff {rows : List Statement} {new : Record} {r : Except String Nat}
    (h : Exchanged rows new r) : (∀ p ∈ new, ∃ n, p.2 = .ok n) ↔ ∃ n, r = .ok n := by
  constructor
  · intro hall
    cases r with
    | ok n => exact ⟨n, rfl⟩
    | error e =>
      obtain ⟨st, hst⟩ := h.failed
      exact hall _ hst
  · rintro ⟨n, rfl⟩ p hp
    obtain ⟨first, done, last, -, rfl, -⟩ := h.sum
    rcases List.mem_append.1 hp with hp | hp
    · rcases List.mem_cons.1 hp with rfl | hp
      · exact ⟨first, rfl⟩
      · obtain ⟨q, -, rfl⟩ := List.mem_map.1 hp
        exact ⟨q.2, rfl⟩
    · obtain rfl := List.mem_singleton.1 hp
      exact ⟨last, rfl⟩

/-- Where the start or a row failed, that was the end: no commit was sent, and nothing after it but
that all is rolled back. -/
theorem Exchanged.stops {rows : List Statement} {new : Record} {r : Except String Nat}
    (h : Exchanged rows new r) (hrows : .commit ∉ rows) {st : Statement} {e : String}
    (hfailed : (st, .error e) ∈ new) (hst : st ≠ .commit) (hst' : st ≠ .rollback) :
    r = .error e ∧ (∀ p ∈ new, p.1 ≠ .commit) ∧
      ∃ before after, new = before ++ (st, .error e) :: after ∧ ∀ p ∈ after, p.1 = .rollback := by
  cases h with
  | unstarted e' =>
    obtain ⟨rfl, rfl⟩ : st = .start ∧ e = e' := by simpa using hfailed
    exact ⟨rfl, by simp, [], [], rfl, by simp⟩
  | refused first done st' rest e' back h =>
    obtain ⟨rfl, rfl⟩ : st = st' ∧ e = e' := by simpa [told_ne_error, hst'] using hfailed
    have hdone : ∀ p ∈ done.map told, p.1 ≠ .commit := by
      rintro p hp hcommit
      obtain ⟨q, hq, rfl⟩ := List.mem_map.1 hp
      exact hrows (h ▸ List.mem_append_left _ (hcommit ▸ List.mem_map_of_mem hq))
    refine ⟨rfl, ?_, (.start, .ok first) :: done.map told, [(.rollback, back)], rfl, by simp⟩
    simp only [List.cons_append, List.forall_mem_cons, List.forall_mem_append]
    exact ⟨by simp, hdone, hst, by simp, by simp⟩
  | uncommitted first done e' back h => simp [told_ne_error, hst, hst'] at hfailed
  | written first done last h => simp [told_ne_error] at hfailed

end

/-! ## The tables -/

/-- The tables after some rows were written, by what one row does. -/
def Written {τ : Type} (writes : Upsert → τ → τ → Prop) : List Upsert → τ → τ → Prop
  | [], before, after => after = before
  | u :: rows, before, after => ∃ next, writes u before next ∧ Written writes rows next after

/-- A server applies a transaction only when it is committed: `tables` are those that others see,
and `view` are those that the transaction sees from its start on. A commit that fails may have been
applied or not, as when the connection is lost before its answer. -/
structure Transacts {σ τ : Type} (d : Database σ) (tables : σ → τ) (view : σ → Option τ)
    (writes : Upsert → τ → τ → Prop) : Prop where
  starts {s s' : σ} {n : Nat} : d.execute .start s = (.ok n, s') →
    tables s' = tables s ∧ view s' = some (tables s)
  unstarted {s s' : σ} {e : String} : d.execute .start s = (.error e, s') → tables s' = tables s
  upserts {s s' : σ} {u : Upsert} {n : Nat} {v : τ} : view s = some v →
    d.execute (.upsert u) s = (.ok n, s') →
    tables s' = tables s ∧ ∃ v', view s' = some v' ∧ writes u v v'
  refuses {s s' : σ} {u : Upsert} {e : String} {v : τ} : view s = some v →
    d.execute (.upsert u) s = (.error e, s') → tables s' = tables s
  commits {s s' : σ} {n : Nat} {v : τ} : view s = some v →
    d.execute .commit s = (.ok n, s') → tables s' = v
  uncommitted {s s' : σ} {e : String} {v : τ} : view s = some v →
    d.execute .commit s = (.error e, s') → tables s' = tables s ∨ tables s' = v
  rollsBack {s s' : σ} {r : Except String Nat} : d.execute .rollback s = (r, s') →
    tables s' = tables s

section

variable {σ τ : Type} {d : Database σ} {tables : σ → τ} {view : σ → Option τ}
variable {writes : Upsert → τ → τ → Prop}

/-- Within a transaction the rows are written in its view only. -/
theorem Transacts.executeAll (hd : Transacts d tables view writes) (rows : List Upsert)
    {s s' : σ} {v : τ} {r : Except String Nat} (hv : view s = some v)
    (h : d.executeAll (rows.map .upsert) s = (r, s')) :
    tables s' = tables s ∧ (∀ n, r = .ok n → ∃ v', view s' = some v' ∧ Written writes rows v v') := by
  induction rows generalizing s s' v r with
  | nil =>
    cases h
    exact ⟨rfl, fun _ _ => ⟨v, hv, rfl⟩⟩
  | cons u rows ih =>
    rw [List.map_cons, Database.executeAll] at h
    rcases hu : d.execute (.upsert u) s with ⟨e | n, s₁⟩ <;> simp only [hu] at h
    · cases h
      exact ⟨hd.refuses hv hu, by simp⟩
    · obtain ⟨htables, v₁, hv₁, hwrites⟩ := hd.upserts hv hu
      -- the first row has changed the view, and the other rows go on from that
      rcases hrest : d.executeAll (rows.map .upsert) s₁ with ⟨r', s₂⟩
      obtain ⟨htables', hview⟩ := ih hv₁ hrest
      have hkept := htables'.trans htables
      cases r' with
      | error e =>
        simp only [hrest] at h
        cases h
        exact ⟨hkept, by simp⟩
      | ok m =>
        simp only [hrest] at h
        cases h
        obtain ⟨v₂, hv₂, hwritten⟩ := hview m rfl
        exact ⟨hkept, fun _ _ => ⟨v₂, hv₂, v₁, hwrites, hwritten⟩⟩

/-- All rows or none, and none where no commit was sent. -/
theorem Transacts.course (hd : Transacts d tables view writes) {rows : List Upsert} {s s' : σ}
    {r : Except String Nat} {new : Record} (h : Course d (rows.map .upsert) s r s' new) :
    (∀ n, r = .ok n → Written writes rows (tables s) (tables s')) ∧
    ((∀ p ∈ new, p.1 ≠ .commit) → tables s' = tables s) ∧
    (tables s' = tables s ∨ Written writes rows (tables s) (tables s')) := by
  cases h with
  | unstarted hstart => exact ⟨by simp, fun _ => hd.unstarted hstart, .inl (hd.unstarted hstart)⟩
  | refused hstart hrows _ hback =>
    have hkept := (hd.rollsBack hback).trans
      ((hd.executeAll rows (hd.starts hstart).2 hrows).1.trans (hd.starts hstart).1)
    exact ⟨by simp, fun _ => hkept, .inl hkept⟩
  | uncommitted hstart hrows _ hcommit hback =>
    obtain ⟨htables, hview⟩ := hd.executeAll rows (hd.starts hstart).2 hrows
    obtain ⟨v, hv, hwritten⟩ := hview _ rfl
    refine ⟨by simp, fun hnone => ?_, ?_⟩
    · exact absurd rfl (hnone _ (List.mem_append_right _ List.mem_cons_self))
    rw [hd.rollsBack hback]
    rcases hd.uncommitted hv hcommit with hkept | happlied
    · exact .inl (hkept.trans (htables.trans (hd.starts hstart).1))
    · exact .inr (happlied ▸ hwritten)
  | written hstart hrows _ hcommit =>
    obtain ⟨v, hv, hwritten⟩ := (hd.executeAll rows (hd.starts hstart).2 hrows).2 _ rfl
    have hall : Written writes rows (tables s) (tables s') := hd.commits hv hcommit ▸ hwritten
    refine ⟨fun _ _ => hall, fun hnone => ?_, .inr hall⟩
    exact absurd rfl (hnone _ (List.mem_append_right _ List.mem_cons_self))

end

/-! ## A batch -/

theorem mapError_eq_ok {r : Except String Nat} {n : Nat} :
    r.mapError StoreError.database = .ok n ↔ r = .ok n := by
  cases r <;> simp [Except.mapError]

theorem recorded_write {σ : Type} (d : Database σ) (s : σ) {b : Batch} (hb : b.upserts ≠ []) :
    ∃ r s' new, d.write s b = (r.mapError .database, s') ∧
      d.recorded.write (s, []) b = (r.mapError .database, s', new) ∧
      Course d (b.upserts.map .upsert) s r s' new := by
  obtain ⟨new, hrecorded, hcourse⟩ := course d (b.upserts.map .upsert) s
  rcases h : d.transaction (b.upserts.map .upsert) s with ⟨r, s'⟩
  rw [h] at hrecorded hcourse
  refine ⟨r, s', new, ?_, ?_, hcourse⟩ <;>
    simp only [Database.write_eq, Database.persist, List.isEmpty_iff, hb, h, hrecorded, if_false] <;>
    cases r <;> rfl

/-- A batch of bars or ticks on any server. An empty one is not sent at all. Otherwise the server is
sent the start of a transaction, the rows in order and the commit, up to the first failure, and all
is rolled back after that. The call gives the number of affected rows if all of it succeeded, and
else the text of the failure. If the start or a row failed then no commit was sent, and the tables
of a server that applies a transaction only when it is committed are as before. They have all rows
after a call that succeeded, and all of them or none after any. -/
theorem batch_all_or_nothing {σ : Type} (d : Database σ) (s : σ) (b : Batch) :
    (b.upserts = [] → d.write s b = (.ok 0, s) ∧ d.sent s b = []) ∧
    (b.upserts ≠ [] →
      d.recorded.write (s, []) b = ((d.write s b).1, (d.write s b).2, d.sent s b) ∧
      (∃ r, (d.write s b).1 = r.mapError .database ∧
        Exchanged (b.upserts.map .upsert) (d.sent s b) r) ∧
      ((∀ p ∈ d.sent s b, ∃ n, p.2 = .ok n) ↔ ∃ n, (d.write s b).1 = .ok n) ∧
      (∀ n, (d.write s b).1 = .ok n →
        ∃ (first : Nat) (done : List (Statement × Nat)) (last : Nat),
          done.map Prod.fst = b.upserts.map .upsert ∧
          d.sent s b = (.start, .ok first) :: done.map told ++ [(.commit, .ok last)] ∧
          n = (done.map Prod.snd).sum) ∧
      (∀ st e, (st, .error e) ∈ d.sent s b → (st = .start ∨ ∃ u, st = .upsert u) →
        (d.write s b).1 = .error (.database e) ∧ (∀ p ∈ d.sent s b, p.1 ≠ .commit) ∧
        ∃ before after, d.sent s b = before ++ (st, .error e) :: after ∧
          ∀ p ∈ after, p.1 = .rollback) ∧
      ∀ (τ : Type) (tables : σ → τ) (view : σ → Option τ) (writes : Upsert → τ → τ → Prop),
        Transacts d tables view writes →
          (∀ n, (d.write s b).1 = .ok n →
            Written writes b.upserts (tables s) (tables (d.write s b).2)) ∧
          ((∀ p ∈ d.sent s b, p.1 ≠ .commit) → tables (d.write s b).2 = tables s) ∧
          (tables (d.write s b).2 = tables s ∨
            Written writes b.upserts (tables s) (tables (d.write s b).2))) := by
  refine ⟨fun hb => ?_, fun hb => ?_⟩
  · have hempty : (d.write s b, d.recorded.write (s, []) b) = ((.ok 0, s), (.ok 0, s, [])) := by
      simp only [Database.write_eq, Database.persist, hb, List.isEmpty_nil, if_true]
    obtain ⟨hwrite, hrecorded⟩ := Prod.mk.inj hempty
    exact ⟨hwrite, by rw [Database.sent, hrecorded]⟩
  obtain ⟨r, s', new, hwrite, hrecorded, hcourse⟩ := recorded_write d s hb
  have hsent : d.sent s b = new := by rw [Database.sent, hrecorded]
  have hexchanged := hcourse.exchanged
  rw [hsent, hwrite]
  simp only [mapError_eq_ok]
  refine ⟨hrecorded, ⟨r, rfl, hexchanged⟩, hexchanged.ok_iff, fun n hn => (hn ▸ hexchanged).sum,
    fun st e hfailed hst => ?_, fun τ tables view writes hd => hd.course hcourse⟩
  have hrows : Statement.commit ∉ b.upserts.map .upsert := by simp
  have hbefore : st ≠ .commit ∧ st ≠ .rollback := by
    rcases hst with rfl | ⟨u, rfl⟩ <;> simp
  obtain ⟨rfl, hcommit, hsplit⟩ := hexchanged.stops hrows hfailed hbefore.1 hbefore.2
  exact ⟨rfl, hcommit, hsplit⟩

/-! ## A server that is out of room -/

/-- A server with room for some more rows, by its tables and those of the open transaction. -/
structure StagingServer where
  now : Int
  tables : List Table
  staged : Option (List Table)
  room : Nat

namespace StagingServer

def execute (st : Statement) (s : StagingServer) : Except String Nat × StagingServer :=
  match st with
  | .start => (.ok 0, { s with staged := some s.tables })
  | .commit => (.ok 0, { s with tables := s.staged.getD s.tables, staged := none })
  | .rollback => (.ok 0, { s with staged := none })
  | .migrate | .bookkeeping _ => (.ok 0, s)
  | .upsert u =>
    match s.room, upsertInto s.now u (s.staged.getD s.tables) with
    | 0, _ => (.error "disk full", { s with staged := none })
    | _ + 1, none => (.error "invalid", { s with staged := none })
    | room + 1, some after =>
      let s := { s with now := s.now + 1, room }
      -- outside of a transaction each row is one of its own
      (.ok 1, if s.staged.isSome then { s with staged := some after } else { s with tables := after })

def database : Database StagingServer := ⟨execute⟩

theorem transacts : Transacts database tables staged fun u before after =>
    ∃ now, upsertInto now u before = some after where
  starts h := by
    cases h
    exact ⟨rfl, rfl⟩
  unstarted h := by cases h
  upserts {s s' u n v} hv h := by
    obtain ⟨now, tables, staged, room⟩ := s
    obtain rfl : staged = some v := hv
    cases room with
    | zero => cases h
    | succ room =>
      simp only [database, execute, Option.getD_some] at h
      split at h <;> cases h
      exact ⟨rfl, _, rfl, now, by assumption⟩
  refuses {s s' u e v} hv h := by
    obtain ⟨now, tables, staged, room⟩ := s
    simp only [database, execute] at h
    split at h <;> cases h <;> rfl
  commits {s s' n v} hv h := by
    cases h
    exact congrArg (·.getD s.tables) hv
  uncommitted _ h := by cases h
  rollsBack h := by
    cases h
    rfl

/-- An empty server with room for some rows. -/
def empty (room : Nat) : StagingServer := ⟨0, [barTable, tickTable], none, room⟩

end StagingServer

namespace Sample

def eth : Tick := tick "ETHUSDT" close

def btc : Tick := tick "BTCUSDT" close

end Sample

/-- There is room for the first of two ticks only, and so neither is kept. -/
theorem batch_all_or_nothing_full :
    (StagingServer.database.write (.empty 1) (.ticks [Sample.eth, Sample.btc])).1 =
      .error (.database "disk full") ∧
    StagingServer.database.sent (.empty 1) (.ticks [Sample.eth, Sample.btc]) =
      [(.start, .ok 0), (.upsert (.ofTick Sample.eth), .ok 1),
        (.upsert (.ofTick Sample.btc), .error "disk full"), (.rollback, .ok 0)] ∧
    (StagingServer.database.write (.empty 1) (.ticks [Sample.eth, Sample.btc])).2.tables =
      [barTable, tickTable] := by
  have hsent : StagingServer.database.sent (.empty 1) (.ticks [Sample.eth, Sample.btc]) =
      [(.start, .ok 0), (.upsert (.ofTick Sample.eth), .ok 1),
        (.upsert (.ofTick Sample.btc), .error "disk full"), (.rollback, .ok 0)] := rfl
  have hrows : (Batch.ticks [Sample.eth, Sample.btc]).upserts ≠ [] := by simp [Batch.upserts]
  obtain ⟨-, -, -, -, hstops, htables⟩ :=
    (batch_all_or_nothing StagingServer.database (.empty 1) (.ticks [Sample.eth, Sample.btc])).2
      hrows
  obtain ⟨hfailed, hcommit, -⟩ :=
    hstops (.upsert (.ofTick Sample.btc)) "disk full" (hsent ▸ by simp) (.inr ⟨_, rfl⟩)
  exact ⟨hfailed, hsent, (htables _ _ _ _ StagingServer.transacts).2.1 hcommit⟩

end Store
end MarketFeed

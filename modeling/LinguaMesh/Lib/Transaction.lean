/-!
# Programs over a store with transactions

A program of statements (`Sql`) reads and writes a store of type `σ`. Any statement may
fail, which leaves the store as it was; the list of faults says which ones do. A
transaction that fails, at a statement, at its beginning or at its commit, or
because its body gives up, is rolled back.

`Ensures m db Q`: however `m` runs from `db`, `Q` holds of its result and of the
store it leaves. The rules follow the constructs of a program.
-/

namespace LinguaMesh.Transaction

variable {ε σ α β : Type}

/-- From a store and the faults to come: the result, the store, and the faults left. -/
def Sql (ε σ α : Type) : Type := σ → List (Option ε) → Except ε α × σ × List (Option ε)

namespace Sql

def pure (a : α) : Sql ε σ α := fun db faults => (.ok a, db, faults)

def bind (m : Sql ε σ α) (k : α → Sql ε σ β) : Sql ε σ β := fun db faults =>
  match m db faults with
  | (.ok a, db, faults) => k a db faults
  | (.error e, db, faults) => (.error e, db, faults)

instance : Monad (Sql ε σ) where
  pure := Sql.pure
  bind := Sql.bind

end Sql

/-- An error that no statement reports. -/
def giveUp (e : ε) : Sql ε σ α := fun db faults => (.error e, db, faults)

/-- One statement: a fault or an error of its own leaves the store as it was. -/
def statement (f : σ → Except ε (α × σ)) : Sql ε σ α := fun db faults =>
  match faults.head?.join with
  | some e => (.error e, db, faults.tail)
  | none =>
    match f db with
    | .ok (a, db') => (.ok a, db', faults.tail)
    | .error e => (.error e, db, faults.tail)

/-- A statement that writes and has no result. -/
def execute (f : σ → Except ε σ) : Sql ε σ Unit :=
  statement fun db => (f db).map fun db => ((), db)

/-- A statement that writes and has no error of its own. -/
def write (f : σ → σ) : Sql ε σ Unit := execute fun db => .ok (f db)

/-- A statement that reads. -/
def query (f : σ → α) : Sql ε σ α := statement fun db => .ok (f db, db)

/-- `BEGIN` and `COMMIT`. -/
def boundary : Sql ε σ Unit := query fun _ => ()

def transaction (body : Sql ε σ α) : Sql ε σ α := fun db faults =>
  match (boundary >>= fun _ => body >>= fun a => boundary >>= fun _ => Pure.pure a) db faults with
  | (.ok a, db', faults) => (.ok a, db', faults)
  | (.error e, _, faults) => (.error e, db, faults)

/-- Whatever the faults are, `Q` holds of the result and the store after it. -/
def Ensures (m : Sql ε σ α) (db : σ) (Q : Except ε α → σ → Prop) : Prop :=
  ∀ faults, Q (m db faults).1 (m db faults).2.1

variable {m : Sql ε σ α} {db : σ} {Q : Except ε α → σ → Prop}

theorem Ensures.mono {R : Except ε α → σ → Prop} (h : Ensures m db Q)
    (hQ : ∀ r db', Q r db' → R r db') : Ensures m db R :=
  fun faults => hQ _ _ (h faults)

theorem ensures_pure {a : α} (h : Q (.ok a) db) : Ensures (pure a) db Q := fun _ => h

theorem ensures_giveUp {e : ε} (h : Q (.error e) db) : Ensures (giveUp e) db Q := fun _ => h

/-- What the rest of a program has to ensure after a result of its first part. -/
@[reducible] def Then (k : α → Sql ε σ β) (Q : Except ε β → σ → Prop) : Except ε α → σ → Prop
  | .ok a, db => Ensures (k a) db Q
  | .error e, db => Q (.error e) db

theorem ensures_bind {k : α → Sql ε σ β} {Q : Except ε β → σ → Prop}
    (h : Ensures m db (Then k Q)) : Ensures (m >>= k) db Q := by
  intro faults
  have hm := h faults
  show Q (Sql.bind m k db faults).1 (Sql.bind m k db faults).2.1
  unfold Sql.bind
  split <;> rename_i heq <;> rw [heq] at hm
  · exact hm _
  · exact hm

theorem ensures_statement {f : σ → Except ε (α × σ)} (herror : ∀ e, Q (.error e) db)
    (hok : ∀ a db', f db = .ok (a, db') → Q (.ok a) db') : Ensures (statement f) db Q := by
  intro faults
  unfold statement
  split
  · exact herror _
  · split
    · rename_i heq
      exact hok _ _ heq
    · exact herror _

theorem ensures_execute {f : σ → Except ε σ} {Q : Except ε Unit → σ → Prop}
    (herror : ∀ e, Q (.error e) db) (hok : ∀ db', f db = .ok db' → Q (.ok ()) db') :
    Ensures (execute f) db Q := by
  refine ensures_statement herror fun _ db' h => ?_
  cases hf : f db with
  | error e => simp [hf, Except.map] at h
  | ok db'' =>
    simp only [hf, Except.map, Except.ok.injEq, Prod.mk.injEq, true_and] at h
    exact h ▸ hok _ hf

theorem ensures_write {f : σ → σ} {Q : Except ε Unit → σ → Prop} (herror : ∀ e, Q (.error e) db)
    (hok : Q (.ok ()) (f db)) : Ensures (write f) db Q :=
  ensures_execute herror fun _ h => Except.ok.inj h ▸ hok

theorem ensures_query {f : σ → α} (herror : ∀ e, Q (.error e) db) (hok : Q (.ok (f db)) db) :
    Ensures (query f) db Q :=
  ensures_statement herror fun _ _ h => by
    obtain ⟨rfl, rfl⟩ := Prod.mk.inj (Except.ok.inj h)
    exact hok

/-- A transaction ends in the store it began in, or as its body does. -/
theorem ensures_transaction (herror : ∀ e, Q (.error e) db)
    (hbody : Ensures m db fun r db' => ∀ a, r = .ok a → Q (.ok a) db') :
    Ensures (transaction m) db Q := by
  have hall : Ensures (boundary >>= fun _ => m >>= fun a => boundary >>= fun _ => pure a) db
      fun r db' => ∀ a, r = .ok a → Q (.ok a) db' := by
    refine ensures_bind (ensures_query (fun _ => nofun) ?_)
    simp only [Then]
    refine ensures_bind (hbody.mono fun r db' h => ?_)
    cases r with
    | error e => exact nofun
    | ok a =>
      simp only [Then]
      refine ensures_bind (ensures_query (fun _ => nofun) ?_)
      intro faults b hb
      obtain rfl : a = b := Except.ok.inj hb
      exact h a rfl
  intro faults
  have h := hall faults
  unfold transaction
  split <;> rename_i heq
  · rw [heq] at h
    exact h _ rfl
  · exact herror _

/-- An error leaves the store as it was. -/
def Unchanged (db : σ) (r : Except ε α) (db' : σ) : Prop := ∀ e, r = .error e → db' = db

end LinguaMesh.Transaction

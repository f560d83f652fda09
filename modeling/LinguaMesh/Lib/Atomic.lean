import LinguaMesh.Lib.Transaction

/-!
# All or nothing

What a program over a store does with no fault decides what it can do with faults. A
`Steady` program reports an error or does what it does without faults; a `Reading`
one leaves the store alone; and a `Whole` one leaves the store as it was, with an
error, or as it is without faults. The rules follow the constructs: reads, then one
statement or one transaction, then reads again, are whole.
-/

namespace LinguaMesh.Transaction

variable {ε σ α β : Type}

/-- A result that is there without a statement. -/
def fromExcept (r : Except ε α) : Sql ε σ α := fun db faults => (r, db, faults)

/-- With faults the program reports an error or does what it does without. -/
structure Steady (m : Sql ε σ α) (db : σ) : Prop where
  quiet : (m db []).2.2 = []
  sure : ∀ faults, (∃ e, (m db faults).1 = .error e) ∨
    (m db faults).1 = (m db []).1 ∧ (m db faults).2.1 = (m db []).2.1

def Reading (m : Sql ε σ α) (db : σ) : Prop := ∀ faults, (m db faults).2.1 = db

/-- A program that is made of reads, from any store. -/
def ReadOnly (m : Sql ε σ α) : Prop := ∀ db, Steady m db ∧ Reading m db

/-- The store is left as it was, with an error, or as it is without faults. -/
def Whole (m : Sql ε σ α) (db : σ) : Prop := ∀ faults,
  ((m db faults).2.1 = db ∧ ∃ e, (m db faults).1 = .error e) ∨
    (m db faults).2.1 = (m db []).2.1 ∧
      ((m db faults).1 = (m db []).1 ∨ ∃ e, (m db faults).1 = .error e)

variable {m : Sql ε σ α} {k : α → Sql ε σ β} {db : σ}

/-! ## Running a program -/

theorem run_bind (m : Sql ε σ α) (k : α → Sql ε σ β) (db : σ) (faults : List (Option ε)) :
    (m >>= k) db faults = match m db faults with
      | (.ok a, db', faults') => k a db' faults'
      | (.error e, db', faults') => (.error e, db', faults') := rfl

theorem run_bind_ok {a : α} {db' : σ} {faults faults' : List (Option ε)}
    (h : m db faults = (.ok a, db', faults')) : (m >>= k) db faults = k a db' faults' := by
  rw [run_bind, h]

theorem run_bind_error {e : ε} {db' : σ} {faults faults' : List (Option ε)}
    (h : m db faults = (.error e, db', faults')) :
    (m >>= k) db faults = (.error e, db', faults') := by
  rw [run_bind, h]

theorem run_map (f : α → β) (m : Sql ε σ α) (db : σ) (faults : List (Option ε)) :
    (f <$> m) db faults = ((m db faults).1.map f, (m db faults).2) := by
  change (m >>= fun a => Pure.pure (f a)) db faults = _
  rw [run_bind]
  cases m db faults with
  | mk r rest => cases r <;> rfl

theorem run_query (f : σ → α) (db : σ) : (query f : Sql ε σ α) db [] = (.ok (f db), db, []) := rfl

theorem run_write (f : σ → σ) (db : σ) : (write f : Sql ε σ Unit) db [] = (.ok (), f db, []) := rfl

theorem run_execute (f : σ → Except ε σ) (db : σ) :
    execute f db [] = match f db with
      | .ok db' => (.ok (), db', [])
      | .error e => (.error e, db, []) := by
  unfold execute statement
  simp only [List.head?_nil, Option.join_none, List.tail_nil]
  cases f db <;> rfl

/-- A transaction without faults keeps what its body does, unless that gives up. -/
theorem run_transaction {r : Except ε α} {db' : σ} (h : m db [] = (r, db', [])) :
    transaction m db [] = match r with
      | .ok a => (.ok a, db', [])
      | .error e => (.error e, db, []) := by
  have hbody : (m >>= fun a => boundary >>= fun _ => Pure.pure a) db [] = (r, db', []) := by
    rw [run_bind, h]
    cases r <;> rfl
  have hall : (boundary >>= fun _ => m >>= fun a => boundary >>= fun _ => Pure.pure a) db [] =
      (r, db', []) := hbody
  unfold transaction
  rw [hall]
  cases r <;> rfl

/-- A transaction that reports an error is rolled back. -/
theorem transaction_error {e : ε} {faults : List (Option ε)}
    (h : (transaction m db faults).1 = .error e) : (transaction m db faults).2.1 = db := by
  unfold transaction at h ⊢
  split
  · rename_i heq
    rw [heq] at h
    cases h
  · rfl

/-! ## Steady programs -/

theorem steady_fromExcept (r : Except ε α) : Steady (fromExcept r) db :=
  ⟨rfl, fun _ => .inr ⟨rfl, rfl⟩⟩

theorem steady_pure (a : α) : Steady (Pure.pure a : Sql ε σ α) db := ⟨rfl, fun _ => .inr ⟨rfl, rfl⟩⟩

theorem steady_giveUp (e : ε) : Steady (giveUp e : Sql ε σ α) db := ⟨rfl, fun _ => .inl ⟨e, rfl⟩⟩

section Statement

variable {f : σ → Except ε (α × σ)} {faults : List (Option ε)} {a : α} {e : ε} {db' : σ}

theorem statement_fault (h : faults.head?.join = some e) :
    statement f db faults = (.error e, db, faults.tail) := by simp only [statement, h]

theorem statement_ok (h : faults.head?.join = none) (hf : f db = .ok (a, db')) :
    statement f db faults = (.ok a, db', faults.tail) := by simp only [statement, h, hf]

theorem statement_error (h : faults.head?.join = none) (hf : f db = .error e) :
    statement f db faults = (.error e, db, faults.tail) := by simp only [statement, h, hf]

theorem steady_statement (f : σ → Except ε (α × σ)) : Steady (statement f) db := by
  cases hf : f db with
  | ok r =>
    obtain ⟨a, db'⟩ := r
    refine ⟨by rw [statement_ok rfl hf]; rfl, fun faults => ?_⟩
    cases h : faults.head?.join with
    | some e => exact .inl ⟨e, by rw [statement_fault h]⟩
    | none => exact .inr (by rw [statement_ok h hf, statement_ok rfl hf]; exact ⟨rfl, rfl⟩)
  | error e =>
    refine ⟨by rw [statement_error rfl hf]; rfl, fun faults => ?_⟩
    cases h : faults.head?.join with
    | some e' => exact .inl ⟨e', by rw [statement_fault h]⟩
    | none => exact .inr (by rw [statement_error h hf, statement_error rfl hf]; exact ⟨rfl, rfl⟩)

end Statement

theorem steady_bind (h : Steady m db)
    (hk : ∀ a db', m db [] = (.ok a, db', []) → Steady (k a) db') : Steady (m >>= k) db := by
  obtain ⟨hquiet, hsure⟩ := h
  cases hm : m db [] with
  | mk r rest =>
    obtain ⟨db0, faults0⟩ := rest
    rw [hm] at hquiet
    dsimp only at hquiet
    subst hquiet
    cases r with
    | error e =>
      refine ⟨by rw [run_bind_error hm], fun faults => .inl ?_⟩
      have hr := hsure faults
      rw [hm] at hr
      cases hf : m db faults with
      | mk r' rest' =>
        rw [hf] at hr
        rcases hr with ⟨e', he⟩ | ⟨he, -⟩
        · cases he
          exact ⟨e', by rw [run_bind_error hf]⟩
        · cases he
          exact ⟨e, by rw [run_bind_error hf]⟩
    | ok a =>
      have hka := hk a db0 hm
      refine ⟨by rw [run_bind_ok hm]; exact hka.quiet, fun faults => ?_⟩
      have hr := hsure faults
      rw [hm] at hr
      cases hf : m db faults with
      | mk r' rest' =>
        obtain ⟨db', faults'⟩ := rest'
        rw [hf] at hr
        rcases hr with ⟨e', he⟩ | ⟨hr, hdb⟩
        · cases he
          exact .inl ⟨e', by rw [run_bind_error hf]⟩
        · cases hr
          cases hdb
          rw [run_bind_ok hf, run_bind_ok hm]
          exact hka.sure faults'

theorem steady_query (f : σ → α) : Steady (query f : Sql ε σ α) db := steady_statement _

theorem steady_execute (f : σ → Except ε σ) : Steady (execute f) db := steady_statement _

theorem steady_write (f : σ → σ) : Steady (write f : Sql ε σ Unit) db :=
  steady_execute fun db => .ok (f db)

theorem steady_transaction (h : Steady m db) : Steady (transaction m) db := by
  have hbody : Steady (boundary >>= fun _ => m >>= fun a => boundary >>= fun _ => Pure.pure a) db := by
    refine steady_bind (steady_query _) fun _ db' hdb => ?_
    cases hdb
    refine steady_bind h fun a db' _ => ?_
    exact steady_bind (steady_query _) fun _ _ _ => steady_pure a
  refine ⟨?_, fun faults => ?_⟩
  · have hquiet := hbody.quiet
    unfold transaction
    split <;> rename_i heq <;> rw [heq] at hquiet <;> exact hquiet
  · have hsure := hbody.sure faults
    unfold transaction
    cases hf : (boundary >>= fun _ => m >>= fun a => boundary >>= fun _ => Pure.pure a) db faults with
    | mk r rest =>
      cases r with
      | error e => exact .inl ⟨e, rfl⟩
      | ok a =>
        rw [hf] at hsure
        rcases hsure with ⟨e, he⟩ | ⟨hr, hdb⟩
        · cases he
        · refine .inr ?_
          cases h0 : (boundary >>= fun _ => m >>= fun a => boundary >>= fun _ => Pure.pure a) db [] with
          | mk r0 rest0 =>
            rw [h0] at hr hdb
            dsimp only at hr hdb
            subst hr
            exact ⟨rfl, hdb⟩

/-! ## Reading programs -/

theorem reading_bind (h : Reading m db) (hk : ∀ a, Reading (k a) db) : Reading (m >>= k) db := by
  intro faults
  have hm := h faults
  cases hf : m db faults with
  | mk r rest =>
    obtain ⟨db', faults'⟩ := rest
    rw [hf] at hm
    cases hm
    cases r with
    | error e => rw [run_bind_error hf]
    | ok a =>
      rw [run_bind_ok hf]
      exact hk a faults'

theorem readOnly_fromExcept (r : Except ε α) : ReadOnly (fromExcept r : Sql ε σ α) :=
  fun _ => ⟨steady_fromExcept r, fun _ => rfl⟩

theorem readOnly_pure (a : α) : ReadOnly (Pure.pure a : Sql ε σ α) :=
  fun _ => ⟨steady_pure a, fun _ => rfl⟩

theorem readOnly_giveUp (e : ε) : ReadOnly (giveUp e : Sql ε σ α) :=
  fun _ => ⟨steady_giveUp e, fun _ => rfl⟩

theorem readOnly_query (f : σ → α) : ReadOnly (query f : Sql ε σ α) := by
  refine fun db => ⟨steady_query f, fun faults => ?_⟩
  unfold query statement
  split <;> rfl

theorem readOnly_bind (h : ReadOnly m) (hk : ∀ a, ReadOnly (k a)) : ReadOnly (m >>= k) :=
  fun db => ⟨steady_bind (h db).1 fun a db' _ => (hk a db').1,
    reading_bind (h db).2 fun a => (hk a db).2⟩

/-! ## Whole programs -/

theorem whole_of_readOnly (h : ReadOnly m) : Whole m db := by
  intro faults
  refine .inr ⟨((h db).2 faults).trans ((h db).2 []).symm, ?_⟩
  rcases (h db).1.sure faults with herror | ⟨hr, -⟩
  · exact .inr herror
  · exact .inl hr

/-- A statement that fails leaves the store as it was. -/
theorem whole_statement (f : σ → Except ε (α × σ)) : Whole (statement f) db := by
  intro faults
  cases h : faults.head?.join with
  | some e =>
    refine .inl ?_
    unfold statement
    rw [h]
    exact ⟨rfl, e, rfl⟩
  | none =>
    refine .inr ?_
    unfold statement
    rw [h]
    simp only [List.head?_nil, Option.join_none]
    cases f db <;> exact ⟨rfl, .inl rfl⟩

/-- A transaction that fails is rolled back. -/
theorem whole_transaction (h : Steady m db) : Whole (transaction m) db := by
  intro faults
  rcases (steady_transaction h).sure faults with ⟨e, he⟩ | ⟨hr, hdb⟩
  · exact .inl ⟨transaction_error he, e, he⟩
  · exact .inr ⟨hdb, .inl hr⟩

/-- Reads before a whole program. -/
theorem whole_after_reading (h : ReadOnly m) (hk : ∀ a, Whole (k a) db) :
    Whole (m >>= k) db := by
  intro faults
  have hm := (h db).2 faults
  have hm0 := (h db).2 []
  cases hf : m db faults with
  | mk r rest =>
    obtain ⟨db', faults'⟩ := rest
    rw [hf] at hm
    cases hm
    cases r with
    | error e => exact .inl (by rw [run_bind_error hf]; exact ⟨rfl, e, rfl⟩)
    | ok a =>
      have hsure := (h db').1.sure faults
      have hquiet := (h db').1.quiet
      rw [hf] at hsure
      rcases hsure with ⟨e, he⟩ | ⟨hr, -⟩
      · cases he
      · cases h0 : m db' [] with
        | mk r0 rest0 =>
          obtain ⟨db0, faults0⟩ := rest0
          rw [h0] at hr hm0 hquiet
          cases hr
          cases hm0
          cases hquiet
          rw [run_bind_ok hf, run_bind_ok h0]
          exact hk a faults'

/-- Reads behind a whole program. -/
theorem whole_before_reading (h : Whole m db) (hsteady : Steady m db)
    (hk : ∀ a, ReadOnly (k a)) : Whole (m >>= k) db := by
  intro faults
  have hw := h faults
  have hquiet := hsteady.quiet
  cases hf : m db faults with
  | mk r rest =>
    obtain ⟨db', faults'⟩ := rest
    cases h0 : m db [] with
    | mk r0 rest0 =>
      obtain ⟨db0, faults0⟩ := rest0
      rw [h0] at hquiet
      cases hquiet
      rw [hf, h0] at hw
      dsimp only at hw
      cases r with
      | error e =>
        rw [run_bind_error hf]
        rcases hw with ⟨hdb, -⟩ | ⟨rfl, -⟩
        · exact .inl ⟨hdb, e, rfl⟩
        · -- the first part has reported an error, with the store as it is without faults
          refine .inr ⟨?_, .inr ⟨e, rfl⟩⟩
          cases r0 with
          | error e0 => rw [run_bind_error h0]
          | ok a =>
            rw [run_bind_ok h0]
            exact ((hk a db').2 []).symm
      | ok a =>
        rw [run_bind_ok hf]
        rcases hw with ⟨-, e, he⟩ | ⟨rfl, hr⟩
        · cases he
        · rcases hr with hr | ⟨e, he⟩
          · subst hr
            rw [run_bind_ok h0]
            have hlast := (whole_of_readOnly (hk a) : Whole (k a) db') faults'
            rcases hlast with ⟨hdb, e, he⟩ | hlast
            · exact .inr ⟨hdb.trans ((hk a db').2 []).symm, .inr ⟨e, he⟩⟩
            · exact .inr hlast
          · cases he

theorem whole_map (f : α → β) (h : Whole m db) : Whole (f <$> m) db := by
  intro faults
  rw [run_map, run_map]
  rcases h faults with ⟨hdb, e, he⟩ | ⟨hdb, hr | ⟨e, he⟩⟩
  · exact .inl ⟨hdb, e, by rw [he]; rfl⟩
  · exact .inr ⟨hdb, .inl (by rw [hr])⟩
  · exact .inr ⟨hdb, .inr ⟨e, by rw [he]; rfl⟩⟩

end LinguaMesh.Transaction

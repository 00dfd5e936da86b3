import EntityQuery.Proofs.Criteria.Scope

/-!
# Foreign keys

A single-valued association is mapped to a column with the id of a row. In a database whose ids are
unique such a column refers to one row at most, so a join along the association never multiplies
rows, and an inner join drops a row only if the association is missing. Along a path, an association
that has to be there is missing only after one that may be missing is.
-/

namespace EntityQuery

/-! ### References -/

/-- The column that a single-valued association is mapped to, with the mapping of the entity type
that it leads to. -/
def Mappings.reference? (ms : Mappings) (hop : PathSegment) : Option (String × EntityMapping) :=
  match (ms.entity? hop.owner).bind fun m => m.property? hop.name with
  | some (.manyToOne column t) => (ms.entity? t).map fun u => (column, u)
  | _ => none

lemma Mappings.Maps.reference?_eq {ms : Mappings} {r : Registry} {hop : PathSegment}
    {m u : EntityMapping} {column t : String}
    (mapped : ms.Maps r hop.owner hop.name m (.manyToOne column t))
    (target : ms.entity? t = some u) : ms.reference? hop = some (column, u) := by
  simp [reference?, mapped.entity, mapped.found, target]

/-- Once an association may be missing, so may all after it. -/
def StaysOptional (hops : List PathSegment) : Prop :=
  hops.Pairwise fun s s' => s.nullable = true → s'.nullable = true

namespace Database

variable (db : Database) (ms : Mappings)

/-- The row that an association refers to from a row. -/
def referenced (hop : PathSegment) (x : SqlRow) : Option SqlRow :=
  (ms.reference? hop).bind fun (column, u) =>
    (db.rows u.table).find? fun y => db.matched (y u.idColumn) (x column)

/-- The row at the end of some associations from a row, unless one of them is missing. -/
def follow (o : Option SqlRow) (hops : List PathSegment) : Option SqlRow :=
  hops.foldl (fun o hop => o.bind (db.referenced ms hop)) o

/-- Whether the joins along some associations drop a row: one that has to be there is missing. -/
def drops : Option SqlRow → List PathSegment → Bool
  | _, [] => false
  | o, hop :: rest =>
    let next := o.bind (db.referenced ms hop)
    (next.isNone && !hop.nullable) || drops next rest

/-- What keys promise: the ids that associations refer to are unique, the column of an association
refers to a row if it has a value, and it has one if the association has to be there. -/
structure ForeignKeys (r : Registry) : Prop where
  unique {e name column t : String} {m u : EntityMapping}
    (mapped : ms.Maps r e name m (.manyToOne column t)) (target : ms.entity? t = some u)
    (v : SqlValue) : ((db.rows u.table).filter fun y => db.matched (y u.idColumn) v).length ≤ 1
  found {e name column t : String} {m u : EntityMapping} {x : SqlRow}
    (mapped : ms.Maps r e name m (.manyToOne column t)) (target : ms.entity? t = some u)
    (row : x ∈ db.rows m.table) (present : x column ≠ .null) :
    ∃ y ∈ db.rows u.table, db.matched (y u.idColumn) (x column) = true
  required {e name column t : String} {m : EntityMapping} {p : PropertyDef} {x : SqlRow}
    (mapped : ms.Maps r e name m (.manyToOne column t)) (declared : r.property? e name = some p)
    (needed : p.nullable = false) (row : x ∈ db.rows m.table) : x column ≠ .null

variable {db ms} {r : Registry} {e t column : String} {m u : EntityMapping}
  {hop : PathSegment} {hops rest : List PathSegment} {o : Option SqlRow} {x y : SqlRow}

/-! ### Joins -/

lemma eq_head?_toList {α : Type} {xs : List α} (h : xs.length ≤ 1) : xs = xs.head?.toList := by
  rcases xs with _ | ⟨a, _ | ⟨b, rest⟩⟩
  · rfl
  · rfl
  · simp at h

/-- The partners of a row are the row that it refers to; nulls have none. -/
lemma ForeignKeys.partners_eq (keys : db.ForeignKeys ms r)
    (mapped : ms.Maps r hop.owner hop.name m (.manyToOne column t))
    (target : ms.entity? t = some u) (o : Option SqlRow) :
    ((db.rows u.table).filter fun y => db.matched (y u.idColumn) (o.getD .null column)) =
      (o.bind (db.referenced ms hop)).toList := by
  cases o with
  | none => simp [SqlRow.null, matched_null_right]
  | some x =>
    rw [eq_head?_toList (keys.unique mapped target _), List.head?_filter]
    simp [referenced, mapped.reference?_eq target]

/-- **Joins**: a join along an association adds the row that is referred to, or nulls if there is
none and it may be missing. -/
lemma ForeignKeys.joined_eq (keys : db.ForeignKeys ms r)
    (mapped : ms.Maps r hop.owner hop.name m (.manyToOne column t))
    (target : ms.entity? t = some u) {a owner : Alias} {env : Env}
    (howner : env owner = o.getD .null) :
    db.joined ⟨if hop.nullable then .left else .inner, u.table, a, u.idColumn, ⟨owner, column⟩⟩
        env =
      if db.drops ms o [hop] then []
      else [Function.update env a ((db.follow ms o [hop]).getD .null)] := by
  have hpartners := keys.partners_eq mapped target o
  have hcolumn : env.column ⟨owner, column⟩ = o.getD .null column := by rw [Env.column, howner]
  simp only [joined, hcolumn, hpartners, drops, follow, List.foldl_cons, List.foldl_nil,
    Bool.or_false]
  cases o.bind (db.referenced ms hop) <;> cases hop.nullable <;> simp

/-! ### Paths -/

lemma follow_append (hops rest : List PathSegment) :
    db.follow ms o (hops ++ rest) = db.follow ms (db.follow ms o hops) rest :=
  List.foldl_append

lemma drops_append (hops rest : List PathSegment) : db.drops ms o (hops ++ rest) =
    (db.drops ms o hops || db.drops ms (db.follow ms o hops) rest) := by
  induction hops generalizing o with
  | nil => simp [drops, follow]
  | cons hop hops ih => rw [List.cons_append, drops, drops, ih, Bool.or_assoc]; rfl

/-- One step along a path, from a row of the table before it: the row that is referred to is one of
the table after it, and it is there if it has to be. -/
lemma ForeignKeys.exists_next (keys : db.ForeignKeys ms r) (entity : ms.entity? e = some m)
    (ho : ∀ x ∈ o, x ∈ db.rows m.table) (mapped : ms.MapsHop r hop)
    (leads : r.Leads e (hop :: rest) t) (single : hop.indexed = false) :
    ∃ e' m', r.Leads e' rest t ∧ ms.entity? e' = some m' ∧
      (∀ y ∈ o.bind (db.referenced ms hop), y ∈ db.rows m'.table) ∧
      (hop.nullable = false → (o.bind (db.referenced ms hop) = none ↔ o = none)) := by
  obtain ⟨m₁, c, e', m', hmaps, -, target, rfl, hone, onward, hcolumn⟩ := mapped.exists_step leads
  obtain rfl : m = m₁ := Option.some.inj (entity.symm.trans hmaps.entity)
  rw [single, if_neg (by decide)] at hcolumn
  obtain ⟨column, rfl⟩ := hcolumn
  have href := hmaps.reference?_eq target
  refine ⟨e', m', onward, target, fun y hy => ?_, fun needed => ⟨fun hnone => ?_, ?_⟩⟩
  · obtain ⟨x, -, hy⟩ := Option.bind_eq_some_iff.mp hy
    rw [referenced, href, Option.bind_some] at hy
    exact List.mem_of_find?_eq_some hy
  · cases o with
    | none => rfl
    | some x =>
      cases hone with
      | @step _ _ _ _ _ p _ declared _ _ =>
        have hrow := ho x rfl
        have hpresent := keys.required hmaps declared.found (declared.nullable ▸ needed) hrow
        obtain ⟨y, hy, hmatched⟩ := keys.found hmaps target hrow hpresent
        rw [Option.bind_some, referenced, href, Option.bind_some, List.find?_eq_none] at hnone
        exact absurd hmatched (hnone y hy)
  · rintro rfl
    rfl

/-- A required association on a path after some others that lead nowhere from a row. -/
def Strands (db : Database) (ms : Mappings) (o : Option SqlRow) (hops : List PathSegment) : Prop :=
  ∃ before hop after, hops = before ++ hop :: after ∧ hop.nullable = false ∧
    db.follow ms o before = none

lemma strands_cons : db.Strands ms o (hop :: rest) ↔
    (hop.nullable = false ∧ o = none) ∨ db.Strands ms (o.bind (db.referenced ms hop)) rest := by
  constructor
  · rintro ⟨_ | ⟨first, before⟩, needed, after, heq, hneeded, hnone⟩
    · obtain ⟨rfl, rfl⟩ := List.cons.inj heq
      exact .inl ⟨hneeded, hnone⟩
    · obtain ⟨rfl, rfl⟩ := List.cons.inj heq
      exact .inr ⟨before, needed, after, rfl, hneeded, hnone⟩
  · rintro (⟨hneeded, hnone⟩ | ⟨before, needed, after, rfl, hneeded, hnone⟩)
    · exact ⟨[], hop, rest, rfl, hneeded, hnone⟩
    · exact ⟨hop :: before, needed, after, rfl, hneeded, hnone⟩

/-- **Dropped rows**: joins along a path drop a row exactly if an association that has to be there
comes after one that is missing. -/
theorem ForeignKeys.drops_iff (keys : db.ForeignKeys ms r) (path : r.LeadsSingly e hops t)
    (mapped : ∀ hop ∈ hops, ms.MapsHop r hop) (entity : ms.entity? e = some m)
    (ho : ∀ x ∈ o, x ∈ db.rows m.table) : db.drops ms o hops = true ↔ db.Strands ms o hops := by
  obtain ⟨leads, single⟩ := path
  induction hops generalizing e m o with
  | nil => simp [drops, Strands]
  | cons hop rest ih =>
    rw [List.any_cons, Bool.or_eq_false_iff] at single
    obtain ⟨e', m', onward, entity', hrows, hneeded⟩ :=
      keys.exists_next entity ho (mapped hop (by simp)) leads single.1
    have hrest := ih (fun s hs => mapped s (by simp [hs])) entity' hrows onward single.2
    rw [drops, Bool.or_eq_true, hrest, strands_cons]
    refine or_congr_left ?_
    cases hnullable : hop.nullable with
    | true => simp
    | false => simp [hneeded hnullable]

/-- Left joins drop nothing. -/
lemma drops_eq_false (h : ∀ s ∈ hops, s.nullable = true) : db.drops ms o hops = false := by
  induction hops generalizing o with
  | nil => rfl
  | cons hop rest ih =>
    rw [drops, h hop (by simp), ih fun s hs => h s (by simp [hs])]
    simp

/-- Joins drop no row where no association has to be there after one that may be missing. -/
lemma ForeignKeys.drops_eq_false (keys : db.ForeignKeys ms r) (path : r.LeadsSingly e hops t)
    (mapped : ∀ hop ∈ hops, ms.MapsHop r hop) (entity : ms.entity? e = some m)
    (row : x ∈ db.rows m.table) (stays : StaysOptional hops) :
    db.drops ms (some x) hops = false := by
  obtain ⟨leads, single⟩ := path
  induction hops generalizing e m x with
  | nil => rfl
  | cons hop rest ih =>
    rw [List.any_cons, Bool.or_eq_false_iff] at single
    obtain ⟨hfirst, hrest⟩ := List.pairwise_cons.mp stays
    obtain ⟨e', m', onward, entity', hrows, hneeded⟩ :=
      keys.exists_next entity (o := some x) (by simpa using row) (mapped hop (by simp)) leads
        single.1
    rw [drops]
    cases hnext : (some x).bind (db.referenced ms hop) with
    | some y =>
      rw [hnext] at hrows
      exact ih (fun s hs => mapped s (by simp [hs])) entity' (hrows y rfl) hrest onward single.2
    | none =>
      -- what is missing here may be missing, and then so may everything after it
      have hnullable : hop.nullable = true := by
        by_contra hneed
        exact Option.some_ne_none x ((hneeded (by simpa using hneed)).mp hnext)
      rw [hnullable, Database.drops_eq_false fun s hs => hfirst s hs hnullable]
      rfl

end Database

end EntityQuery

import EntityQuery.Criteria.Mapping
import EntityQuery.Proofs.Criteria.Semantics
import EntityQuery.Proofs.Instance.Fits

/-!
# Databases that store instances

The mappings of entity types say where a database keeps instances: a row for each of them, a column
for each single value, and for each collection the rows that point back at its owner. What a
relational query reads off such rows is what the instances have.
-/

namespace EntityQuery

open Instance

lemma PropertyType.isCollection_iff {t : PropertyType} :
    t.isCollection = true ↔ t.kind = .collection := by
  cases t <;> simp [isCollection, kind]

/-! ### Mapped properties -/

namespace ColumnMapping

/-- The column that holds the value of a property. -/
def column? : ColumnMapping → Option String
  | column name | manyToOne name _ => some name
  | _ => none

/-- The entity type that an association leads to. -/
def target? : ColumnMapping → Option String
  | manyToOne _ t | oneToMany t _ | manyToMany _ _ _ t => some t
  | _ => none

/-- Whether a property of a type can be stored in this way. -/
def Suits : ColumnMapping → PropertyType → Prop
  | column _, t => t.isCollection = false
  | manyToOne _ target, t => t = .entity target
  | oneToMany target _, t | manyToMany _ _ _ target, t => t = .collection (.entity target)
  | elements _ _ _, t => t.isCollection = true

variable {c : ColumnMapping} {t : PropertyType}

lemma Suits.exists_column? (h : c.Suits t) (single : t.kind ≠ .collection) :
    ∃ name, c.column? = some name := by
  cases c with
  | column name => exact ⟨name, rfl⟩
  | manyToOne name target => exact ⟨name, rfl⟩
  | oneToMany target mappedBy => exact absurd (congrArg PropertyType.kind h) single
  | manyToMany table owner column target => exact absurd (congrArg PropertyType.kind h) single
  | elements table owner column => exact absurd (PropertyType.isCollection_iff.mp h) single

lemma Suits.column?_eq_none (h : c.Suits t) (many : t.kind = .collection) : c.column? = none := by
  cases c with
  | column name => simp [Suits, PropertyType.isCollection_iff.mpr many] at h
  | manyToOne name target => rw [h] at many; cases many
  | _ => rfl

/-- An association is stored where it leads to, as a column if it is single-valued. -/
lemma Suits.of_target {indexed : Bool} {target target' : String}
    (h : c.Suits (.association indexed target)) (leads : c.target? = some target') :
    target' = target ∧
      if indexed then c.column? = none else ∃ column, c = .manyToOne column target := by
  cases indexed <;> cases c <;> cases leads <;>
    simp_all [Suits, PropertyType.association, column?]

end ColumnMapping

/-- A declared property of an entity type is stored in a way that suits its type. -/
structure Mappings.Maps (ms : Mappings) (r : Registry) (e name : String) (m : EntityMapping)
    (c : ColumnMapping) : Prop where
  entity : ms.entity? e = some m
  found : m.property? name = some c
  suits : ∃ p, r.property? e name = some p ∧ c.Suits p.type

/-- The properties of a path are mapped: the steps on the way are associations with instances of an
entity type that has a table, and so is the last one if it is a collection of instances. -/
structure Mappings.MapsPath (ms : Mappings) (r : Registry) (path : PropertyPath) : Prop where
  parents : ∀ s ∈ path.parents, ∃ m c t u, ms.Maps r s.owner s.name m c ∧ c.target? = some t ∧
    ms.entity? t = some u
  leaf : ∃ m c, ms.Maps r path.leaf.owner path.leaf.name m c ∧
    (path.kind = .collection → ∀ t, c.target? = some t → ∃ u, ms.entity? t = some u)

/-- A step of a path is mapped to an association with an entity type that has a table. -/
def Mappings.MapsHop (ms : Mappings) (r : Registry) (s : PathSegment) : Prop :=
  ∃ m c t u, ms.Maps r s.owner s.name m c ∧ c.target? = some t ∧ ms.entity? t = some u

/-- The first step of a path leads to the entity type that it is mapped to, by a column if it is
single-valued. -/
lemma Mappings.MapsHop.exists_step {ms : Mappings} {r : Registry} {e v : String} {hop : PathSegment}
    {rest : List PathSegment} (h : ms.MapsHop r hop) (leads : r.Leads e (hop :: rest) v) :
    ∃ m c t u, ms.Maps r e hop.name m c ∧ c.target? = some t ∧ ms.entity? t = some u ∧
      hop.owner = e ∧ r.Leads e [hop] t ∧ r.Leads t rest v ∧
        if hop.indexed then c.column? = none else ∃ column, c = .manyToOne column t := by
  cases leads with
  | @step _ t _ _ _ p owner declared type onward =>
    subst owner
    obtain ⟨m, c, t', u, mapped, leads, target⟩ := h
    obtain ⟨p', hp', hsuits⟩ := mapped.suits
    obtain rfl : p = p' := by simpa [declared.found] using hp'
    rw [← declared.type, type] at hsuits
    obtain ⟨rfl, hcolumn⟩ := hsuits.of_target leads
    exact ⟨m, c, t', u, mapped, leads, target, rfl, .step rfl declared type .here, onward, hcolumn⟩

/-! ### Stored instances -/

/-- The items of a list; no other value has any. -/
def Value.items (v : Value) : List Value :=
  v.list?.getD []

/-- What is compared of a value: a list item by item. -/
def Value.parts : Value → List Value
  | .list items => items
  | v => [v]

lemma Value.Fits.parts_eq {r : Registry} {t : PropertyType} {v : Value} (h : v.Fits r t)
    (single : t.kind ≠ .collection) : v.parts = [v] := by
  cases h with
  | list => exact absurd rfl single
  | _ => rfl

/-- A column holds the stored form of a value, and is null only where the value is. -/
structure SqlValue.Holds (x : SqlValue) (v : Value) : Prop where
  form : x = .ofValue v
  present : x = .null → v = .null

lemma SqlValue.Holds.eq_null_iff {x : SqlValue} {v : Value} (h : x.Holds v) :
    x = .null ↔ v.isNull = true := by
  constructor
  · intro hx
    rw [h.present hx]
    rfl
  · intro hv
    rw [h.form]
    cases v <;> simp_all [Value.isNull, SqlValue.ofValue, Value.identity]

variable {ι : Type} [Instance ι]

/-- A database stores instances as mappings say. The instances of an entity type are those that `Of`
says, and `row` is what a table has of each. -/
structure Database.Stores (db : Database) (ms : Mappings) (r : Registry) (Of : String → ι → Prop)
    (row : String → ι → SqlRow) : Prop where
  types : r.Types Of
  /-- The table of an entity type has the rows of its instances. -/
  rows {e : String} {m : EntityMapping} (entity : ms.entity? e = some m) (x : SqlRow) :
    x ∈ db.rows m.table ↔ ∃ i, Of e i ∧ row e i = x
  /-- The id column tells instances apart. -/
  ids {e : String} {m : EntityMapping} {i j : ι} (entity : ms.entity? e = some m) (hi : Of e i)
    (hj : Of e j) : db.matched (row e i m.idColumn) (row e j m.idColumn) = true ↔ i = j
  /-- A column holds the value of its property. -/
  values {e name column : String} {m : EntityMapping} {c : ColumnMapping} {i : ι}
    (mapped : ms.Maps r e name m c) (hc : c.column? = some column) (hi : Of e i) :
    (row e i column).Holds (valueOf i name)
  /-- The column of a single-valued association holds the id of an instance that is stored. -/
  references {e name column t : String} {m u : EntityMapping} {i : ι}
    (mapped : ms.Maps r e name m (.manyToOne column t)) (target : ms.entity? t = some u)
    (hi : Of e i) :
    row e i column = (related i name).head?.elim .null fun j => row t j u.idColumn
  /-- The rows that point back at an instance are those of the elements. -/
  pointers {e name t mappedBy : String} {m u : EntityMapping} {i j : ι}
    (mapped : ms.Maps r e name m (.oneToMany t mappedBy)) (target : ms.entity? t = some u)
    (hi : Of e i) (hj : Of t j) :
    db.matched (row t j mappedBy) (row e i m.idColumn) = true ↔ j ∈ related i name
  /-- The links of an instance lead to the ids of the elements. -/
  links {e name table owner column t : String} {m u : EntityMapping} {i : ι}
    (mapped : ms.Maps r e name m (.manyToMany table owner column t))
    (target : ms.entity? t = some u) (hi : Of e i) (x : SqlValue) :
    (∃ link ∈ db.rows table, db.matched (link owner) (row e i m.idColumn) = true ∧
      link column = x) ↔ ∃ j ∈ related i name, row t j u.idColumn = x
  /-- The value of a collection of instances has their ids. -/
  members {e name t : String} {m u : EntityMapping} {c : ColumnMapping} {i : ι}
    (mapped : ms.Maps r e name m c) (leads : c.target? = some t) (many : c.column? = none)
    (target : ms.entity? t = some u) (hi : Of e i) (x : SqlValue) :
    (∃ v ∈ (valueOf i name).items, SqlValue.ofValue v = x) ↔
      ∃ j ∈ related i name, row t j u.idColumn = x
  /-- The rows of a collection of plain values hold its items. -/
  elements {e name table owner column : String} {m : EntityMapping} {i : ι}
    (mapped : ms.Maps r e name m (.elements table owner column)) (hi : Of e i) (x : SqlValue) :
    (∃ el ∈ db.rows table, db.matched (el owner) (row e i m.idColumn) = true ∧ el column = x) ↔
      ∃ v ∈ (valueOf i name).items, SqlValue.ofValue v = x

/-- The row of an instance, or nulls if there is none. -/
def SqlRow.of (row : String → ι → SqlRow) (e : String) (o : Option ι) : SqlRow :=
  o.elim .null (row e)

namespace Database.Stores

variable {db : Database} {ms : Mappings} {r : Registry} {Of : String → ι → Prop}
  {row : String → ι → SqlRow} {e name column t : String} {m u : EntityMapping} {o : Option ι}

lemma of_related (hs : db.Stores ms r Of row) {c : ColumnMapping} {i : ι}
    (mapped : ms.Maps r e name m c) (leads : c.target? = some t) (hi : Of e i) :
    ∀ j ∈ related i name, Of t j := by
  obtain ⟨p, hp, hsuits⟩ := mapped.suits
  refine hs.types.target hi hp ?_
  cases c <;> cases leads <;> rw [hsuits] <;> rfl

lemma holds_read (hs : db.Stores ms r Of row) {c : ColumnMapping} (mapped : ms.Maps r e name m c)
    (hc : c.column? = some column) (ho : ∀ i ∈ o, Of e i) :
    (SqlRow.of row e o column).Holds (read o name) := by
  cases o with
  | none => exact ⟨rfl, fun _ => rfl⟩
  | some i => exact hs.values mapped hc (ho i rfl)

lemma reference_eq (hs : db.Stores ms r Of row) (mapped : ms.Maps r e name m (.manyToOne column t))
    (target : ms.entity? t = some u) (ho : ∀ i ∈ o, Of e i) :
    SqlRow.of row e o column = SqlRow.of row t (next o name) u.idColumn := by
  cases o with
  | none => rfl
  | some i =>
    rw [SqlRow.of, Option.elim_some, hs.references mapped target (ho i rfl), next, Option.bind_some]
    cases (related i name).head? <;> rfl

/-- The rows that match an id are the row of its instance. -/
lemma matched_id_iff (hs : db.Stores ms r Of row) (target : ms.entity? t = some u)
    (ho : ∀ j ∈ o, Of t j) (x : SqlRow) :
    (x ∈ db.rows u.table ∧
      db.matched (x u.idColumn) (SqlRow.of row t o u.idColumn) = true) ↔
        ∃ j ∈ o, x = row t j := by
  rw [hs.rows target]
  constructor
  · rintro ⟨⟨i, hi, rfl⟩, hmatched⟩
    cases o with
    | none => simp [SqlRow.of, SqlRow.null, matched_null_right] at hmatched
    | some j =>
      obtain rfl := (hs.ids target hi (ho j rfl)).mp hmatched
      exact ⟨i, rfl, rfl⟩
  · rintro ⟨j, rfl, rfl⟩
    exact ⟨⟨j, ho j rfl, rfl⟩, (hs.ids target (ho j rfl) (ho j rfl)).mpr rfl⟩

/-- **Joins follow associations**: a join by a column with an id puts the row of its instance in
place of the table, and drops the row it started from if there is none and it is no left join. -/
lemma mem_joined_iff (hs : db.Stores ms r Of row) (target : ms.entity? t = some u)
    (ho : ∀ j ∈ o, Of t j) {env e : Env} {kind : JoinKind} {a : Alias} {owner : ColumnRef}
    (howner : env.column owner = SqlRow.of row t o u.idColumn) :
    e ∈ db.joined ⟨kind, u.table, a, u.idColumn, owner⟩ env ↔
      (o.isSome = true ∨ kind = .left) ∧ e = Function.update env a (SqlRow.of row t o) := by
  have hmatched := hs.matched_id_iff target ho
  rw [mem_joined]
  simp only [howner]
  cases o with
  | none =>
    have hnone : ∀ x ∈ db.rows u.table,
        db.matched (x u.idColumn) (SqlRow.of row t none u.idColumn) = false := by
      intro x hx
      by_contra hx'
      obtain ⟨j, hj, -⟩ := (hmatched x).mp ⟨hx, by simpa using hx'⟩
      cases hj
    constructor
    · rintro (⟨x, hx, hmatch, -⟩ | ⟨hkind, -, rfl⟩)
      · simp [hnone x hx] at hmatch
      · exact ⟨.inr hkind, rfl⟩
    · rintro ⟨hsome | hkind, rfl⟩
      · cases hsome
      · exact .inr ⟨hkind, hnone, rfl⟩
  | some j =>
    obtain ⟨hrow, hmatch⟩ := (hmatched (row t j)).mpr ⟨j, rfl, rfl⟩
    constructor
    · rintro (⟨x, hx, hx', rfl⟩ | ⟨-, hnone, -⟩)
      · obtain ⟨i, hi, rfl⟩ := (hmatched x).mp ⟨hx, hx'⟩
        cases hi
        exact ⟨.inl rfl, rfl⟩
      · simp [hnone _ hrow] at hmatch
    · rintro ⟨-, rfl⟩
      exact .inl ⟨_, hrow, hmatch, rfl⟩

end Database.Stores

end EntityQuery

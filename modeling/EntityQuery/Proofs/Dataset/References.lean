import EntityQuery.Proofs.Dataset.Identity
import EntityQuery.Proofs.Execution.Membership
import EntityQuery.Proofs.Preparation.Plain

/-!
# Comparing references and navigating them

The records that a reference leads to can be found in two ways: the reference is compared with an id,
or it is followed and the id at its end is compared. An operand is converted to the type of the ids
in either case, but the reference carries what a document says. So both ways select the same records
for ids that are read as they are written, while a reference to a date, a date-time or a constant
equals none.
-/

namespace EntityQuery

open PathStep (IsStep)

variable {r : Registry} {context : QueryContext}

/-! ### Converting to references -/

namespace Registry

variable {site site' : OperandSite} {type idType : PropertyType} {l : Literal} {target : String}
  {u v : Value}

/-- A literal that is no reference yet is converted for the ids of the entity type. -/
lemma exists_of_convert_entity (plain : l.reference? target = none)
    (h : r.convert site (.entity target) l = .ok v) :
    ∃ type id, r.idType? target = some type ∧
      r.convert site type l = .ok id ∧ v = .ref target id := by
  cases convert_eq_ok.mp h with
  | reference hv => cases plain.symm.trans hv
  | id _ known hid => exact ⟨_, _, known, convert_eq_ok.mpr hid, rfl⟩
  | scalar hv => cases l <;> cases hv

/-- What a literal is converted to depends on the type alone. -/
lemma convert_unique (h : r.convert site type l = .ok v)
    (h' : r.convert site' type l = .ok u) : v = u :=
  Except.ok.inj (h.symm.trans (convert_site h' site))

/-- A literal of a type that is neither a reference nor a collection is converted on its own. -/
lemma scalar?_of_convert (single : type.isCollection = false) (plain : ∀ name, type ≠ .entity name)
    (h : r.convert site type l = .ok v) : l.scalar? type = some v := by
  cases convert_eq_ok.mp h with
  | element => cases single
  | reference => exact absurd rfl (plain _)
  | id => exact absurd rfl (plain _)
  | scalar hv => exact hv

/-- A reference stays a reference to the same id, whatever it is converted to. -/
lemma identity_of_convert_ref {name : String} {id : Value} (hl : l = .typed (.ref name id))
    (h : r.convert site type l = .ok v) : v.identity = id.identity := by
  subst hl
  replace h := convert_eq_ok.mp h
  induction h with
  | element _ ih => exact ih
  | reference hw =>
    rw [Literal.reference?] at hw
    split at hw
    · obtain rfl := Option.some.inj hw
      rfl
    · cases hw
  | id _ _ _ ih => exact ih
  | @scalar type _ hw => cases type <;> cases hw

/-- **References are converted by their ids**: the reference that a literal is converted to carries
what the literal is converted to for the ids. -/
lemma identity_of_convert (known : r.idType? target = some idType)
    (h : r.convert site (.entity target) l = .ok v)
    (h' : r.convert site' idType l = .ok u) :
    (∃ id, v = .ref target id) ∧ v.identity = u.identity := by
  cases hl : l.reference? target with
  | none =>
    obtain ⟨_, id, hknown, hid, rfl⟩ := exists_of_convert_entity hl h
    obtain rfl := Option.some.inj (known.symm.trans hknown)
    rw [convert_unique hid h']
    exact ⟨⟨u, rfl⟩, rfl⟩
  | some w =>
    obtain rfl := Except.ok.inj ((convert_reference hl).symm.trans h)
    unfold Literal.reference? at hl
    split at hl
    · split at hl
      · rename_i name id hname
        obtain rfl := Option.some.inj hl
        exact ⟨⟨id, by rw [hname]⟩, (identity_of_convert_ref rfl h').symm⟩
      · cases hl
    · cases hl

/-- An operand for a reference, or for a collection of them, is converted by its ids. -/
lemma exists_of_coerce_association {property property' : String} {indexed : Bool} {x : Operand}
    (present : x ≠ .null ∧ x ≠ .value .null) (known : r.idType? target = some idType)
    (h : r.coerce context property (.association indexed target) x = .ok v)
    (h' : r.coerce context property' idType x = .ok u) :
    ((∃ id, v = .ref target id) ∧ v.identity = u.identity) ∧
      ∃ l site, r.convert site idType l = .ok u := by
  have hliteral : ∀ l site site', r.convert site (.association indexed target) l = .ok v →
      r.convert site' idType l = .ok u →
      ((∃ id, v = .ref target id) ∧ v.identity = u.identity) ∧
        ∃ l site, r.convert site idType l = .ok u := by
    intro l site site' h h'
    have hentity : r.convert site (.entity target) l = .ok v := by
      cases indexed with
      | true => rwa [PropertyType.association, if_pos rfl, convert_collection] at h
      | false => exact h
    exact ⟨identity_of_convert known hentity h', l, site', h'⟩
  cases x with
  | null => exact absurd rfl present.1
  | value w =>
    have hw : w ≠ .null := fun hw => present.2 (hw ▸ rfl)
    cases w <;> first | exact absurd rfl hw | exact hliteral _ _ _ h h'
  | function f =>
    cases f with
    | currentUser =>
      simp only [coerce, functionValue] at h h'
      cases huser : context.principal? with
      | none => simp [huser] at h
      | some user =>
        simp only [huser] at h h'
        exact hliteral _ _ _ h h'
    | _ => cases indexed <;> cases h
  | list => cases h
  | _ => exact hliteral _ _ _ h h'

end Registry

/-- What a reference carries is no value of a type that is written as a text and is none. -/
lemma Value.IsCarried.sameAs_encoded {id u : Value} {type : PropertyType} (hid : id.IsCarried)
    (hu : u.IsOperand r type) (encoded : type.isEncoded = true) : id.sameAs u = false := by
  cases hu <;> cases encoded <;> cases hid <;> rfl

/-! ### Deciding -/

namespace Condition.Prepared

variable {ι : Type} [Instance ι] {entity : String} {c : Condition} {hop : PathSegment}

/-- A condition on a property itself is decided by the value of the property. -/
lemma exists_decided (hc : c.Prepared r entity) (hparents : c.property.parents = []) :
    ∃ m : Matcher, Strategy.of? c.operator c.property.kind = some m.strategy ∧
      m.operands = c.operands ∧ ∀ i : ι,
        c.found i = m.accepts (Instance.valueOf i c.property.leaf.name) ∧
          c.stated i = m.accepts (Instance.valueOf i c.property.leaf.name) := by
  obtain ⟨m, b, hm, hs, hops, hb, heval⟩ := Condition.exists_matcher (ι := ι) hc
  refine ⟨m, hs, hops, fun i => ⟨?_, ?_⟩⟩
  · rw [Condition.found_eq hm]
    simp [valuesAt, PropertyPath.isMultiValued, PropertyPath.names, PropertyPath.segments, hparents,
      reach]
  · rw [Condition.stated, hb]
    simp [heval, Condition.ends, hparents, Instance.ends, Instance.read]

/-- A condition behind an association is decided by the values of the instances it leads to. -/
lemma exists_decided_behind (hc : c.Prepared r entity) (hparents : c.property.parents = [hop]) :
    ∃ m : Matcher, Strategy.of? c.operator c.property.kind = some m.strategy ∧
      m.operands = c.operands ∧ ∀ i : ι, m.accepts .null = false →
        (hop.indexed = false → (Instance.related i hop.name).length ≤ 1) →
        c.found i = (Instance.related i hop.name).any (fun j =>
          m.accepts (Instance.valueOf j c.property.leaf.name)) ∧
        c.stated i = (Instance.related i hop.name).any fun j =>
          m.accepts (Instance.valueOf j c.property.leaf.name) := by
  obtain ⟨m, b, hm, hs, hops, hb, heval⟩ := Condition.exists_matcher (ι := ι) hc
  refine ⟨m, hs, hops, fun i hnull hsingle => ?_⟩
  have hstated : c.stated i = (c.ends i).any fun o =>
      m.accepts (Instance.read o c.property.leaf.name) := by
    rw [Condition.stated, hb]
    exact heval i
  rw [Condition.found_eq hm, hstated, valuesAt, Condition.ends, hparents]
  simp only [PropertyPath.isMultiValued, PropertyPath.names, PropertyPath.segments, hparents, reach,
    Instance.ends, List.singleton_append, List.map_cons, List.map_nil, List.any_cons, List.any_nil,
    Bool.or_false]
  cases hindexed : hop.indexed with
  | true => simp [Instance.read, List.any_flatMap]
  | false =>
    have hsingle := hsingle hindexed
    rcases hrelated : Instance.related i hop.name with _ | ⟨j, _ | ⟨_, _⟩⟩
    · simp [Instance.next, Instance.read, hrelated, hnull]
    · simp [Instance.next, Instance.read, hrelated]
    · simp [hrelated] at hsingle

end Condition.Prepared

lemma Strategy.of?_contains {kind : PropertyKind} {s : Strategy}
    (h : of? .contains kind = some s) : s = .containment false := by
  cases kind <;> simp [of?] at h
  exact h ▸ rfl

/-! ### Records and references -/

namespace Dataset

variable {decls : List EntityDecl} {d : Dataset} {entity target name : String} {p : PropertyDef}
  {i j : Record}

/-- A record of a loaded dataset has its values in the table of its entity type. -/
lemma exists_row (hi : i ∈ d.records entity) :
    i.store = d.store ∧ ∃ t, d.store.table? entity = some t ∧ i.row ∈ t.rows := by
  unfold records Store.records at hi
  split at hi
  · cases hi
  · rename_i t ht
    obtain ⟨index, hindex, rfl⟩ := List.mem_map.mp hi
    have hlt := List.mem_range.mp hindex
    refine ⟨rfl, t, ht, ?_⟩
    simp [Record.row, ht, hlt]

/-- The value of a declared property was read for its type. -/
lemma exists_value (hload : load decls = .ok d) (hi : i ∈ d.records entity)
    (hp : d.registry.property? entity name = some p) :
    ∃ j, Value.ofJson p.type j = .ok (i.valueOf name) := by
  obtain ⟨-, t, ht, hrow⟩ := exists_row hi
  obtain ⟨e, he, hfits, -⟩ := fits_of_load hload ht
  rw [Registry.property?_eq he] at hp
  exact hfits.value hrow hp

/-- The references of an association are absent, or lead to the declared entity type by the ids that
they carry. There is at most one unless the association has several elements. -/
lemma isCarried_of_mem_references {indexed : Bool} (hload : load decls = .ok d)
    (hi : i ∈ d.records entity) (hp : d.registry.property? entity name = some p)
    (htype : p.type = .association indexed target) :
    (∀ v ∈ Record.references (i.valueOf name),
      v = .null ∨ ∃ id, v = .ref target id ∧ id.IsCarried) ∧
    (indexed = true → ∃ items, i.valueOf name = .list items) ∧
    (indexed = false → i.valueOf name = .null ∨ ∃ id, i.valueOf name = .ref target id) := by
  obtain ⟨j, hj⟩ := exists_value hload hi hp
  rw [htype, PropertyType.association] at hj
  cases indexed with
  | true =>
    obtain ⟨items, hitems, hread⟩ := Value.items_of_ofJson hj
    refine ⟨fun v hv => ?_, fun _ => ⟨items, hitems⟩, by simp⟩
    rw [hitems] at hv
    obtain ⟨j, hj⟩ := hread v hv
    exact Value.isCarried_of_ofJson hj
  | false =>
    rcases Value.isCarried_of_ofJson hj with hnull | ⟨id, href, hid⟩
    · rw [hnull]
      exact ⟨fun v hv => (List.not_mem_nil hv).elim, by simp, fun _ => .inl rfl⟩
    · rw [href]
      refine ⟨fun v hv => .inr ⟨id, List.mem_singleton.mp hv, hid⟩, by simp, fun _ => .inr ⟨id, rfl⟩⟩

/-- **The record at the end of a reference** has an id that was read for the declared type and has
the literal of the reference's id. -/
lemma exists_id_of_target? {e : EntityDef} {k : PropertyDef} {id : Value}
    (hload : load decls = .ok d) (he : d.registry.entity? target = some e) (hk : e.id? = some k)
    (hj : d.store.target? (.ref target id) = some j) :
    (∃ json, Value.ofJson k.type json = .ok (j.valueOf k.name)) ∧
      (j.valueOf k.name).isNull = false ∧ (j.valueOf k.name).literal = id.literal := by
  obtain ⟨index, hindex, rfl⟩ := Option.map_eq_some_iff.mp hj
  obtain ⟨t, ht, hfind⟩ := Option.bind_eq_some_iff.mp hindex
  obtain ⟨e', he', hfits, -⟩ := fits_of_load hload ht
  obtain rfl := Option.some.inj (he.symm.trans he')
  obtain ⟨hlt, hkey, -⟩ := List.findIdx?_eq_some_iff_getElem.mp hfind
  have hmem : t.rows[index] ∈ t.rows := List.getElem_mem hlt
  have hrow : Record.row ⟨d.store, target, index⟩ = t.rows[index] := by
    simp [Record.row, ht, hlt]
  have hname : k.name = e.idProperty := by
    have hfound := List.find?_some hk
    exact beq_iff_eq.mp hfound
  rw [Record.valueOf, hrow, hname]
  refine ⟨hfits.value hmem hk, hfits.idProperty ▸ hfits.id hmem, ?_⟩
  have hliteral := beq_iff_eq.mp hkey
  rwa [Table.key, Table.key, Value.literal_identity, Value.literal_identity, hfits.idProperty]
    at hliteral

end Dataset

/-! ### Comparing and navigating -/

/-- A prepared query of one condition selects what both ways of running the condition select. -/
lemma PreparedQuery.selects_cond {ι : Type} [Instance ι] {entity : String} {q : RawQuery}
    {c : Condition} {i : ι} {selected : Bool}
    (h : q.prepare r context entity = .ok (.of (.cond c)))
    (hc : c.found i = selected ∧ c.stated i = selected) :
    PreparedQuery.Selects (.of (.cond c)) i selected := by
  obtain ⟨haccepts, hevaluates⟩ := accepts_and_evaluates_of_prepare h i
  exact ⟨haccepts.trans (congrArg Except.ok hc.1), hevaluates.trans (congrArg Except.ok hc.2)⟩

/-- The operator that compares an association with a reference. -/
def Operator.comparing (indexed : Bool) : Operator :=
  if indexed then .contains else .eq

lemma Operator.comparing_isUnary (indexed : Bool) : (comparing indexed).isUnary = false := by
  cases indexed <;> rfl

/-- No reference of an association dangles: each of them leads to a record. -/
def Record.Resolves (i : Record) (name : String) : Prop :=
  ∀ v ∈ Record.references (i.valueOf name), v.isNull = false → (i.store.target? v).isSome = true

namespace Dataset

variable {decls : List EntityDecl} {d : Dataset} {entity target a : String} {p k : PropertyDef}
  {e : EntityDef} {indexed : Bool} {x : Operand} {A B : PreparedQuery} {i : Record} {u v : Value}

/-- The property that identifies records has no translator. -/
lemma translator?_id (hload : load decls = .ok d) (he : d.registry.entity? target = some e)
    (hk : e.id? = some k) : k.translator? = none := by
  have hentities : d.registry.entities = decls.map EntityDecl.definition := by
    unfold load at hload
    cases hregistry : EntityDecl.registry decls with
    | error e => simp [hregistry] at hload
    | ok r =>
      simp only [hregistry] at hload
      obtain ⟨tables, -, rfl⟩ := exists_of_map_eq_ok hload
      exact EntityDecl.entities_of_registry hregistry
  have hmem := List.mem_of_find?_eq_some he
  rw [hentities] at hmem
  obtain ⟨decl, -, rfl⟩ := List.mem_map.mp hmem
  exact EntityDecl.translator?_id hk

/-- A comparison of an association is decided by its references. -/
lemma decided_comparison (hload : load decls = .ok d)
    (hp : d.registry.property? entity p.name = some p)
    (htype : p.type = .association indexed target)
    (hc : Condition.Prepared d.registry entity
      ⟨⟨[], Registry.leafOf entity p⟩, .comparing indexed, [v]⟩)
    (hi : i ∈ d.records entity) :
    let selected := (Record.references (i.valueOf p.name)).any fun w => w.sameAs v
    let c : Condition := ⟨⟨[], Registry.leafOf entity p⟩, .comparing indexed, [v]⟩
    c.found i = selected ∧ c.stated i = selected := by
  obtain ⟨m, hs, hops, hdecided⟩ := hc.exists_decided (ι := Record) rfl
  obtain ⟨-, hlist, hsingle⟩ := isCarried_of_mem_references hload hi hp htype
  have haccepts : m.accepts (i.valueOf p.name) =
      (Record.references (i.valueOf p.name)).any fun w => w.sameAs v := by
    cases indexed with
    | true =>
      obtain ⟨items, hitems⟩ := hlist rfl
      have hstrategy := Strategy.of?_contains hs
      rw [hitems, Matcher.accepts_containment hstrategy hops]
      rfl
    | false =>
      have hstrategy := Strategy.of?_eq hs
      rw [Matcher.accepts_equality hstrategy hops]
      rcases hsingle rfl with hnull | ⟨id, href⟩
      · rw [hnull]
        exact Value.null_sameAs v
      · rw [href]
        exact (Bool.or_false _).symm
  exact haccepts ▸ hdecided i

/-- A comparison behind an association is decided by the ids of the records it leads to. -/
lemma decided_navigation (hload : load decls = .ok d)
    (hp : d.registry.property? entity p.name = some p)
    (htype : p.type = .association indexed target)
    (hc : Condition.Prepared d.registry entity
      ⟨⟨[Registry.hopOf entity p indexed], Registry.leafOf target k⟩, .eq, [u]⟩)
    (hi : i ∈ d.records entity) :
    let selected := (i.related p.name).any fun j => (j.valueOf k.name).sameAs u
    let c : Condition :=
      ⟨⟨[Registry.hopOf entity p indexed], Registry.leafOf target k⟩, .eq, [u]⟩
    c.found i = selected ∧ c.stated i = selected := by
  obtain ⟨m, hs, hops, hdecided⟩ := hc.exists_decided_behind (ι := Record) rfl
  obtain ⟨-, -, hsingle⟩ := isCarried_of_mem_references hload hi hp htype
  have haccepts := Matcher.accepts_equality (Strategy.of?_eq hs) hops
  simp only [haccepts] at hdecided
  refine hdecided i (Value.null_sameAs u) fun hindexed => ?_
  refine (List.length_filterMap_le _ _).trans ?_
  rcases hsingle hindexed with hnull | ⟨id, href⟩
  · exact (congrArg (fun v => (Record.references v).length) hnull).le.trans (Nat.zero_le 1)
  · exact (congrArg (fun v => (Record.references v).length) href).le

/-- An operand for ids of a type without references and elements is a value of the type. -/
lemma isOperand_of_exists_convert {r : Registry} {type : PropertyType}
    (h : ∃ l site, r.convert site type l = .ok u) (single : type.isCollection = false)
    (plain : ∀ name, type ≠ .entity name) : u.IsOperand r type := by
  obtain ⟨l, site, hconvert⟩ := h
  exact Registry.isOperand_of_scalar? (Registry.scalar?_of_convert single plain hconvert)

/-- Both queries are prepared to a condition as it is, with a reference and with its id. -/
lemma exists_prepared (hload : load decls = .ok d)
    (hp : d.registry.property? entity p.name = some p)
    (htype : p.type = .association indexed target)
    (real : ∀ names, p.translator? ≠ some (.expand names))
    (he : d.registry.entity? target = some e) (hk : e.id? = some k)
    (ha : IsStep p.name) (hname : IsStep k.name) (present : x ≠ .null ∧ x ≠ .value .null)
    (filled : ∀ property, d.registry.coerce context property k.type x ≠ .ok (.text ""))
    (hA : RawQuery.prepare d.registry context entity
      (.of (.cond ⟨p.name, .comparing indexed, some x⟩)) = .ok A)
    (hB : RawQuery.prepare d.registry context entity
      (.of (.cond ⟨stepText p.name indexed ++ "." ++ k.name, .eq, some x⟩)) = .ok B) :
    ∃ v u, ((∃ id, v = .ref target id) ∧ v.identity = u.identity) ∧
      (∃ l site, d.registry.convert site k.type l = .ok u) ∧
      (A = .of (.cond ⟨⟨[], Registry.leafOf entity p⟩, .comparing indexed, [v]⟩) ∧
        Condition.Prepared d.registry entity
          ⟨⟨[], Registry.leafOf entity p⟩, .comparing indexed, [v]⟩) ∧
      B = .of (.cond
        ⟨⟨[Registry.hopOf entity p indexed], Registry.leafOf target k⟩, .eq, [u]⟩) ∧
      Condition.Prepared d.registry entity
        ⟨⟨[Registry.hopOf entity p indexed], Registry.leafOf target k⟩, .eq, [u]⟩ := by
  have hproperty : d.registry.property? target k.name = some k := by
    have hfound := List.find?_some hk
    rw [Registry.property?_eq he, beq_iff_eq.mp hfound]
    exact hk
  obtain ⟨definition, hqA⟩ := Registry.resolve_name hp ha
  obtain ⟨definition', hqB⟩ := Registry.resolve_behind_name hp ha htype hproperty hname
  -- the operand is converted for either path
  obtain ⟨u, hu, single⟩ : ∃ u, d.registry.coerce context
      (PropertyPath.text ⟨[Registry.hopOf entity p indexed], Registry.leafOf target k⟩)
      k.type x = .ok u ∧ ∀ items, x ≠ .list items := by
    obtain ⟨e', path, vs, t, he', hpath, hvs, -, -⟩ := RawQuery.prepare_cond_eq_ok.mp hB
    obtain ⟨q, hq, rfl⟩ := Registry.exists_resolved_of_pathOf hpath
    rw [Registry.entity?_name he'] at hq
    obtain rfl := Except.ok.inj (hqB.symm.trans hq)
    obtain ⟨u, hu, -⟩ := Registry.exists_of_operandsOf_eq hvs
    refine ⟨u, hu, ?_⟩
    rintro items rfl
    cases hu
  obtain ⟨v, hv⟩ : ∃ v, d.registry.coerce context
      (PropertyPath.text ⟨[], Registry.leafOf entity p⟩) p.type x = .ok v := by
    obtain ⟨e', path, vs, t, he', hpath, hvs, -, -⟩ := RawQuery.prepare_cond_eq_ok.mp hA
    obtain ⟨q, hq, rfl⟩ := Registry.exists_resolved_of_pathOf hpath
    rw [Registry.entity?_name he'] at hq
    obtain rfl := Except.ok.inj (hqA.symm.trans hq)
    rw [Registry.operandsOf_single (Operator.comparing_isUnary indexed) single] at hvs
    obtain ⟨v, hv, -⟩ := exists_of_map_eq_ok hvs
    exact ⟨v, hv⟩
  have known : d.registry.idType? target = some k.type := by
    simp [Registry.idType?, he, hk]
  have hconverted := Registry.exists_of_coerce_association present known (htype ▸ hv) hu
  obtain ⟨⟨⟨id, rfl⟩, hidentity⟩, hconvert⟩ := hconverted
  refine ⟨_, u, ⟨⟨id, rfl⟩, hidentity⟩, hconvert, ?_, ?_⟩
  · have plain : Condition.Plain ⟨⟨[], Registry.leafOf entity p⟩, .comparing indexed,
        [.ref target id]⟩ (.ref target id) := by
      refine ⟨?_, rfl, rfl, fun _ => Value.noConfusion⟩
      cases indexed with
      | false => exact .inl rfl
      | true => exact .inr ⟨rfl, congrArg PropertyType.kind htype⟩
    refine RawQuery.prepare_plain hqA (Operator.comparing_isUnary indexed) single hv plain
      (fun t => plain.eq_of_translator rfl fun p' names hp' => ?_) hA
    obtain rfl := Option.some.inj (hp.symm.trans hp')
    exact real names
  · refine RawQuery.prepare_plain hqB rfl single hu ⟨.inl rfl, rfl, ?_, fun _ htext => ?_⟩
      (fun t ht => ?_) hB
    · exact Registry.present_of_coerce present.1 present.2 hu
    · exact filled _ (htext ▸ hu)
    · obtain ⟨k', translator, hk', htranslator, -⟩ := Stage.translator_eq_some ht
      obtain rfl := Option.some.inj (hproperty.symm.trans hk')
      cases (translator?_id hload he hk).symm.trans htranslator

/-- A reference that leads to a record compares like the id of the record, unless ids are written as
texts and are none. Then it equals nothing. -/
lemma sameAs_of_target? {id : Value} {j : Record} (hload : load decls = .ok d)
    (he : d.registry.entity? target = some e) (hk : e.id? = some k) (hid : id.IsCarried)
    (hj : d.store.target? (.ref target id) = some j)
    (hu : ∃ l site, d.registry.convert site k.type l = .ok u) :
    id.sameAs u = ((j.valueOf k.name).sameAs u && !k.type.isEncoded) := by
  obtain ⟨⟨json, hread⟩, hpresent, hliteral⟩ := exists_id_of_target? hload he hk hj
  cases henc : k.type.isEncoded with
  | true =>
    have hoperand : u.IsOperand d.registry k.type := by
      refine isOperand_of_exists_convert hu ?_ fun name htype => ?_
      · cases htype : k.type <;> simp [htype, PropertyType.isEncoded, PropertyType.isCollection] at *
      · simp [htype, PropertyType.isEncoded] at henc
    simp [hid.sameAs_encoded hoperand henc]
  | false =>
    rw [Bool.not_false, Bool.and_true]
    refine (Value.sameAs_of_literal hid hread hpresent hliteral henc fun htype => ?_).symm
    have hoperand := isOperand_of_exists_convert hu (by rw [htype]; rfl) (by simp [htype])
    rw [htype] at hoperand
    cases hoperand with
    | float x => exact ⟨x, rfl⟩

/-- **Comparing a reference and navigating it** select the same records, whatever the operand,
unless the ids are of a type whose values are written as texts: a reference to one of these equals
nothing. -/
theorem selects_reference_and_id (hload : load decls = .ok d)
    (hp : d.registry.property? entity a = some p) (htype : p.type = .association indexed target)
    (real : ∀ names, p.translator? ≠ some (.expand names))
    (he : d.registry.entity? target = some e) (hk : e.id? = some k)
    (ha : IsStep a) (hname : IsStep k.name) (present : x ≠ .null ∧ x ≠ .value .null)
    (filled : ∀ property, d.registry.coerce context property k.type x ≠ .ok (.text ""))
    (hA : RawQuery.prepare d.registry context entity
      (.of (.cond ⟨a, .comparing indexed, some x⟩)) = .ok A)
    (hB : RawQuery.prepare d.registry context entity
      (.of (.cond ⟨stepText a indexed ++ "." ++ k.name, .eq, some x⟩)) = .ok B)
    (hi : i ∈ d.records entity) (resolves : i.Resolves a) :
    ∃ selected, B.Selects i selected ∧ A.Selects i (selected && !k.type.isEncoded) := by
  obtain rfl := (Registry.declared_of_property? hp).1
  obtain ⟨v, u, ⟨⟨id', rfl⟩, hidentity⟩, hu, ⟨rfl, hcA⟩, rfl, hcB⟩ :=
    exists_prepared hload hp htype real he hk ha hname present filled hA hB
  have hdecidedA := decided_comparison hload hp htype hcA hi
  have hdecidedB := decided_navigation hload hp htype hcB hi
  refine ⟨_, PreparedQuery.selects_cond hB hdecidedB, ?_⟩
  have hagree : (Record.references (i.valueOf p.name)).any (fun w => w.sameAs (.ref target id')) =
      ((i.related p.name).any (fun j => (j.valueOf k.name).sameAs u) && !k.type.isEncoded) := by
    obtain ⟨hcarried, -, -⟩ := isCarried_of_mem_references hload hi hp htype
    rw [Record.related, List.any_filterMap, List.and_any_distrib_right, Bool.eq_iff_iff,
      List.any_eq_true, List.any_eq_true]
    refine exists_congr fun w => and_congr_right fun hw => Bool.eq_iff_iff.mp ?_
    rcases hcarried w hw with rfl | ⟨id, rfl, hid⟩
    · exact Value.null_sameAs _
    · obtain ⟨j, hj⟩ := Option.isSome_iff_exists.mp (resolves _ hw rfl)
      have hid' : (Value.ref target id).sameAs (.ref target id') = id.sameAs u := by
        rw [Value.sameAs, Value.sameAs, hidentity, Value.identity]
      rw [hid', hj]
      rw [(exists_row hi).1] at hj
      exact sameAs_of_target? hload he hk hid hj hu
  rw [← hagree]
  exact PreparedQuery.selects_cond hA hdecidedA

end Dataset

namespace Holidays

/-- A plan for the first day of the year zero, which is a holiday, by the second team. -/
def decls : List EntityDecl :=
  [⟨"Holiday", "id", [⟨"id", .date, true, none⟩], [[("id", .string "0000-01-01")]]⟩,
    ⟨"Team", "id", [⟨"id", .int, true, none⟩], [[("id", .number (.integer 2))]]⟩,
    ⟨"Plan", "id", [⟨"id", .text, true, none⟩, ⟨"day", .entity "Holiday", true, none⟩,
      ⟨"team", .entity "Team", true, none⟩],
      [[("id", .string "a"), ("day", .string "0000-01-01"), ("team", .number (.integer 2))]]⟩]

/-- The dataset that is loaded. -/
def dataset : Dataset where
  registry := ⟨[⟨"Holiday", "id", [⟨"id", .date, false, none⟩]⟩,
    ⟨"Team", "id", [⟨"id", .int, false, none⟩]⟩,
    ⟨"Plan", "id", [⟨"id", .text, false, none⟩, ⟨"day", .entity "Holiday", true, none⟩,
      ⟨"team", .entity "Team", true, none⟩]⟩]⟩
  store := ⟨[⟨"Holiday", "id", [[("id", .date default)]]⟩, ⟨"Team", "id", [[("id", .int 2)]]⟩,
    ⟨"Plan", "id", [[("id", .text "a"), ("day", .ref "Holiday" (.text "0000-01-01")),
      ("team", .ref "Team" (.int 2))]]⟩]⟩

lemma load_decls : Dataset.load decls = .ok dataset :=
  rfl

/-- The only plan. -/
def plan : Record :=
  ⟨dataset.store, "Plan", 0⟩

/-- Nobody asks, when the year zero begins. -/
def newYear : QueryContext :=
  ⟨.startOf default, none⟩

/-- A day as it is written. -/
def firstDay : Operand :=
  .string "0000-01-01"

/-- Plans are searched by the id that one of their references leads to. -/
def behind (name target : String) (type : PropertyType) (id : Value) : PreparedQuery :=
  .of (.cond ⟨⟨[⟨name, "Plan", .entity target, true, false⟩], ⟨"id", target, type, false, false⟩⟩,
    .eq, [id]⟩)

variable (property : String) (site : OperandSite)

lemma convert_date : dataset.registry.convert site .date (.text "0000-01-01") =
    .ok (.date default) := by
  have hday : Date.ofText? "0000-01-01" = some default := by decide +kernel
  exact Registry.convert_of_scalar? (by simp [Literal.scalar?, hday])

lemma convert_int : dataset.registry.convert site .int (.int 2) = .ok (.int 2) :=
  Registry.convert_of_scalar? rfl

lemma coerce_holiday : dataset.registry.coerce newYear property (.entity "Holiday") firstDay =
    .ok (.ref "Holiday" (.date default)) := by
  rw [firstDay, Registry.coerce, Registry.convert_entity rfl
    (show dataset.registry.idType? "Holiday" = some .date from rfl), convert_date]
  rfl

lemma coerce_team : dataset.registry.coerce newYear property (.entity "Team") (.integer 2) =
    .ok (.ref "Team" (.int 2)) := by
  rw [Registry.coerce, Registry.convert_entity rfl
    (show dataset.registry.idType? "Team" = some .int from rfl), convert_int]
  rfl

lemma prepare_day : RawQuery.prepare dataset.registry newYear "Plan"
    (.of (.cond ⟨"day", .eq, some firstDay⟩)) =
      .ok (.of (.cond ⟨⟨[], ⟨"day", "Plan", .entity "Holiday", true, false⟩⟩, .eq,
        [.ref "Holiday" (.date default)]⟩)) :=
  RawQuery.prepare_cond_eq_ok.mpr ⟨_, _, _, _, rfl, rfl,
    congrArg (Except.map _) (coerce_holiday _), rfl, rfl⟩

lemma prepare_dayId : RawQuery.prepare dataset.registry newYear "Plan"
    (.of (.cond ⟨"day.id", .eq, some firstDay⟩)) =
      .ok (behind "day" "Holiday" .date (.date default)) :=
  RawQuery.prepare_cond_eq_ok.mpr ⟨_, _, _, _, rfl, rfl,
    congrArg (Except.map _) (convert_date _), rfl, rfl⟩

lemma prepare_team : RawQuery.prepare dataset.registry newYear "Plan"
    (.of (.cond ⟨"team", .eq, some (.integer 2)⟩)) =
      .ok (.of (.cond ⟨⟨[], ⟨"team", "Plan", .entity "Team", true, false⟩⟩, .eq,
        [.ref "Team" (.int 2)]⟩)) :=
  RawQuery.prepare_cond_eq_ok.mpr ⟨_, _, _, _, rfl, rfl,
    congrArg (Except.map _) (coerce_team _), rfl, rfl⟩

lemma prepare_teamId : RawQuery.prepare dataset.registry newYear "Plan"
    (.of (.cond ⟨"team.id", .eq, some (.integer 2)⟩)) =
      .ok (behind "team" "Team" .int (.int 2)) :=
  RawQuery.prepare_cond_eq_ok.mpr ⟨_, _, _, _, rfl, rfl,
    congrArg (Except.map _) (convert_int _), rfl, rfl⟩

lemma resolves_day : plan.Resolves "day" := by
  intro v hv _
  obtain rfl : v = .ref "Holiday" (.text "0000-01-01") := List.mem_singleton.mp hv
  decide +kernel

lemma resolves_team : plan.Resolves "team" := by
  intro v hv _
  obtain rfl : v = .ref "Team" (.int 2) := List.mem_singleton.mp hv
  decide +kernel

lemma selects_dayId : (behind "day" "Holiday" .date (.date default)).Selects plan true :=
  ⟨by decide +kernel, by decide +kernel⟩

lemma selects_teamId : (behind "team" "Team" .int (.int 2)).Selects plan true :=
  ⟨by decide +kernel, by decide +kernel⟩

end Holidays

open Holidays in
/-- The plan's day is found by its id alone, the plan's team in both ways. -/
theorem selects_reference_and_id_holidays :
    ∃ d day dayId team teamId, Dataset.load decls = .ok d ∧
      RawQuery.prepare d.registry newYear "Plan"
        (.of (.cond ⟨"day", .eq, some firstDay⟩)) = .ok day ∧
      RawQuery.prepare d.registry newYear "Plan"
        (.of (.cond ⟨"day.id", .eq, some firstDay⟩)) = .ok dayId ∧
      RawQuery.prepare d.registry newYear "Plan"
        (.of (.cond ⟨"team", .eq, some (.integer 2)⟩)) = .ok team ∧
      RawQuery.prepare d.registry newYear "Plan"
        (.of (.cond ⟨"team.id", .eq, some (.integer 2)⟩)) = .ok teamId ∧
      ∃ i ∈ d.records "Plan", (dayId.Selects i true ∧ day.Selects i false) ∧
        teamId.Selects i true ∧ team.Selects i true := by
  have hplan : plan ∈ dataset.records "Plan" := List.mem_singleton.mpr rfl
  refine ⟨dataset, _, _, _, _, load_decls, prepare_day, prepare_dayId, prepare_team, prepare_teamId,
    plan, hplan, ?_, ?_⟩
  · have hid : stepText "day" false ++ "." ++ "id" = "day.id" := by decide
    obtain ⟨selected, hid, hday⟩ := Dataset.selects_reference_and_id load_decls rfl
      (show PropertyType.entity "Holiday" = .association false "Holiday" from rfl)
      (by simp) rfl rfl (by decide) (by decide) (by simp [firstDay])
      (fun property h => by cases (convert_date _).symm.trans h)
      prepare_day (hid ▸ prepare_dayId) hplan resolves_day
    obtain rfl := Except.ok.inj (selects_dayId.1.symm.trans hid.1)
    exact ⟨hid, hday⟩
  · have hid : stepText "team" false ++ "." ++ "id" = "team.id" := by decide
    obtain ⟨selected, hid, hteam⟩ := Dataset.selects_reference_and_id load_decls rfl
      (show PropertyType.entity "Team" = .association false "Team" from rfl)
      (by simp) rfl rfl (by decide) (by decide) (by simp)
      (fun property h => by cases (convert_int _).symm.trans h)
      prepare_team (hid ▸ prepare_teamId) hplan resolves_team
    obtain rfl := Except.ok.inj (selects_teamId.1.symm.trans hid.1)
    exact ⟨hid, hteam⟩

open Holidays in
/-- No reference to a holiday dangles. Still, the plan's day is not equal to the day whose id it
equals. -/
theorem exists_id_without_reference :
    ∃ day dayId, Dataset.load decls = .ok dataset ∧
      RawQuery.prepare dataset.registry newYear "Plan"
        (.of (.cond ⟨"day", .eq, some firstDay⟩)) = .ok day ∧
      RawQuery.prepare dataset.registry newYear "Plan"
        (.of (.cond ⟨"day.id", .eq, some firstDay⟩)) = .ok dayId ∧
      (∀ i ∈ dataset.records "Plan", i.Resolves "day") ∧
      plan ∈ dataset.records "Plan" ∧ dayId.Selects plan true ∧ day.Selects plan false := by
  refine ⟨_, _, load_decls, prepare_day, prepare_dayId, fun i hi => ?_, List.mem_singleton.mpr rfl,
    selects_dayId, ⟨rfl, rfl⟩⟩
  obtain rfl : i = plan := List.mem_singleton.mp hi
  exact resolves_day

end EntityQuery

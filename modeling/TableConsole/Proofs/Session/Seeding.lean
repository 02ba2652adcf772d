import Mathlib.Data.List.Dedup
import TableConsole.Proofs.Except
import TableConsole.Session.Seed

/-! # Seeding symbols

A seed document binds its members in the order of their keys, each key once and with the value it was
written with last. What is bound is always a first part of them: all members, or those before the
first that does not convert. No other name changes, and a document that is no object binds nothing.
-/

namespace TableConsole

set_option autoImplicit false

namespace Json

def writtenMembers? (document : String) : Option (List (String × Json)) :=
  match JsonReader.skipBlank document.toList with
  | '{' :: cs => do
    let (written, rest) ←
      JsonReader.items (JsonReader.member (JsonReader.value (maxLevels - 1))) '}' cs
    if (JsonReader.skipBlank rest).isEmpty then some written else none
  | _ => none

/-- In the order of their keys, each with the value it was written with last. -/
structure Keyed (written members : List (String × Json)) : Prop where
  sorted : members.Pairwise (·.1 < ·.1)
  last : ∀ key, members.lookup key = written.reverse.lookup key

theorem mem_setEntry {key : String} {j : Json} {member : String × Json}
    {members : List (String × Json)} (h : member ∈ setEntry key j members) :
    member = (key, j) ∨ member ∈ members := by
  induction members with
  | nil => simpa [setEntry] using h
  | cons other members ih =>
    rw [setEntry] at h
    split at h
    · grind
    · split at h <;> grind

theorem sorted_setEntry (key : String) (j : Json) {members : List (String × Json)}
    (h : members.Pairwise (·.1 < ·.1)) : (setEntry key j members).Pairwise (·.1 < ·.1) := by
  induction members with
  | nil => simp [setEntry]
  | cons other members ih =>
    obtain ⟨hother, hmembers⟩ := List.pairwise_cons.mp h
    rw [setEntry]
    split
    · rename_i hkey
      exact List.pairwise_cons.mpr ⟨fun member hmem => hkey ▸ hother member hmem, hmembers⟩
    split
    · rename_i hlt
      refine List.pairwise_cons.mpr ⟨List.forall_mem_cons.mpr ⟨hlt, ?_⟩, h⟩
      exact fun member hmem => String.lt_trans hlt (hother member hmem)
    · rename_i hne hlt
      refine List.pairwise_cons.mpr ⟨fun member hmem => ?_, ih hmembers⟩
      obtain rfl | hmem := mem_setEntry hmem
      · exact Std.lt_of_le_of_ne hlt (Ne.symm hne)
      · exact hother member hmem

theorem keyed_foldl (written members : List (String × Json)) (h : members.Pairwise (·.1 < ·.1)) :
    let all := written.foldl (fun members (key, j) => setEntry key j members) members
    all.Pairwise (·.1 < ·.1) ∧
      ∀ key, all.lookup key = (written.reverse.lookup key).or (members.lookup key) := by
  induction written generalizing members with
  | nil => exact ⟨h, fun key => rfl⟩
  | cons member written ih =>
    obtain ⟨key, j⟩ := member
    obtain ⟨hsorted, hlookup⟩ := ih (setEntry key j members) (sorted_setEntry key j h)
    refine ⟨hsorted, fun other => ?_⟩
    rw [List.foldl_cons, hlookup, lookup_setEntry, List.reverse_cons, List.lookup_append]
    by_cases hkey : other = key
    · cases written.reverse.lookup other <;> simp [hkey]
    · cases written.reverse.lookup other <;> simp [hkey, List.lookup_cons, beq_false_of_ne]

theorem exists_keyed (written : List (String × Json)) :
    ∃ members, Json.ofMembers written = .object members ∧ Keyed written members := by
  obtain ⟨hsorted, hlookup⟩ := keyed_foldl written [] .nil
  exact ⟨_, rfl, hsorted, fun key => by rw [hlookup, List.lookup_nil, Option.or_none]⟩

theorem Keyed.nodup {written members : List (String × Json)} (h : Keyed written members) :
    (members.map (·.1)).Nodup :=
  List.pairwise_map.mpr (h.sorted.imp fun hlt => String.ne_of_lt hlt)

theorem Keyed.length {written members : List (String × Json)} (h : Keyed written members) :
    members.length = (written.map (·.1)).dedup.length := by
  have hkeys (entries : List (String × Json)) (key : String) :
      key ∈ entries.map (·.1) ↔ (entries.lookup key).isSome = true := by
    rw [List.lookup_isSome_iff, List.mem_map]
    refine exists_congr fun entry => and_congr_right fun _ => ?_
    rw [beq_iff_eq, eq_comm]
  have hperm : (members.map (·.1)).Perm (written.map (·.1)).dedup := by
    refine (List.perm_ext_iff_of_nodup h.nodup (List.nodup_dedup _)).mpr fun key => ?_
    rw [List.mem_dedup, hkeys, h.last, ← hkeys, List.map_reverse, List.mem_reverse]
  simpa using hperm.length_eq

theorem ofText?_eq (document : String) :
    Json.ofText? document =
      (JsonReader.valueOver (JsonReader.value (maxLevels - 1)) document.toList).bind fun (j, rest) =>
        if (JsonReader.skipBlank rest).isEmpty then some j else none := rfl

theorem ofText?_of_writtenMembers? {document : String} {written : List (String × Json)}
    (h : writtenMembers? document = some written) :
    Json.ofText? document = some (Json.ofMembers written) := by
  rw [ofText?_eq, JsonReader.valueOver]
  unfold writtenMembers? at h
  split at h
  · rename_i cs hcs
    obtain ⟨⟨written', rest⟩, hitems, hrest⟩ := Option.bind_eq_some_iff.mp h
    obtain ⟨hblank, heq⟩ := Option.ite_none_right_eq_some.mp hrest
    cases heq
    simp [hcs, hitems, List.isEmpty_iff.mp hblank]
  · cases h

theorem ofText?_ne_object {document : String} (h : writtenMembers? document = none)
    (members : List (String × Json)) : Json.ofText? document ≠ some (.object members) := by
  intro hread
  rw [ofText?_eq] at hread
  obtain ⟨⟨j, rest⟩, hj, hrest⟩ := Option.bind_eq_some_iff.mp hread
  obtain ⟨hblank, heq⟩ := Option.ite_none_right_eq_some.mp hrest
  cases heq
  unfold writtenMembers? at h
  unfold JsonReader.valueOver at hj
  split at hj
  · cases hj
  · cases hj
  · cases hj
  · obtain ⟨_, -, heq⟩ := Option.map_eq_some_iff.mp hj
    cases heq
  · obtain ⟨_, -, heq⟩ := Option.map_eq_some_iff.mp hj
    cases heq
  · rename_i cs hcs
    obtain ⟨⟨written, rest'⟩, hitems, heq⟩ := Option.map_eq_some_iff.mp hj
    obtain rfl : rest' = rest := congrArg Prod.snd heq
    simp [hcs, hitems, List.isEmpty_iff.mp hblank] at h
  · obtain ⟨_, -, heq⟩ := Option.map_eq_some_iff.mp hj
    cases heq

end Json

structure Symbols.Seeded (symbols : Symbols) (members : List (String × Json)) (after : Symbols) :
    Prop where
  bound : ∀ key j, (key, j) ∈ members → ∃ v, Value.ofJson j = .ok v ∧ after.get? key = some v
  other : ∀ name, name ∉ members.map (·.1) → after.get? name = symbols.get? name

namespace Symbols.Seeded

variable {symbols after : Symbols} {members : List (String × Json)}

theorem nil (symbols : Symbols) : symbols.Seeded [] symbols where
  bound _ _ h := absurd h List.not_mem_nil
  other _ _ := rfl

theorem cons {key : String} {j : Json} {v : Value} (hv : Value.ofJson j = .ok v)
    (hkey : key ∉ members.map (·.1)) (h : (symbols.insert key v).Seeded members after) :
    symbols.Seeded ((key, j) :: members) after where
  bound other j' hmem := by
    obtain heq | hmem := List.mem_cons.mp hmem
    · cases heq
      exact ⟨v, hv, by rw [h.other key hkey, Symbols.get?_insert_self]⟩
    · exact h.bound other j' hmem
  other name hname := by
    rw [List.map_cons, List.mem_cons, not_or] at hname
    rw [h.other name hname.2, Symbols.get?_insert, if_neg hname.1]

end Symbols.Seeded

theorem bindMembers_seeded (symbols : Symbols) {members : List (String × Json)}
    (hkeys : (members.map (·.1)).Nodup) :
    let (result, after) := bindMembers symbols members
    result = .ok () ∧ symbols.Seeded members after ∨
      ∃ before key j behind fault, members = before ++ (key, j) :: behind ∧
        Value.ofJson j = .error fault ∧ result = .error fault ∧ symbols.Seeded before after := by
  induction members generalizing symbols with
  | nil => exact .inl ⟨rfl, .nil symbols⟩
  | cons member members ih =>
    obtain ⟨key, j⟩ := member
    obtain ⟨hkey, hkeys⟩ := List.nodup_cons.mp hkeys
    rw [bindMembers]
    cases hv : Value.ofJson j with
    | error fault => exact .inr ⟨[], key, j, members, fault, rfl, hv, rfl, .nil symbols⟩
    | ok v =>
      obtain ⟨hok, hseeded⟩ | ⟨before, key', j', behind, fault, rfl, hfault, herror, hseeded⟩ :=
        ih (symbols.insert key v) hkeys
      · exact .inl ⟨hok, .cons hv hkey hseeded⟩
      · refine .inr ⟨(key, j) :: before, key', j', behind, fault, rfl, hfault, herror, ?_⟩
        refine .cons hv (fun hmem => hkey ?_) hseeded
        exact List.map_append ▸ List.mem_append_left _ hmem

/-- Seeding from an object binds all its members and counts their keys, or binds the members before
the first that does not convert, which is the error. Any other document changes nothing. -/
theorem seed_binds_until_failure (symbols : Symbols) (document : String) :
    let (result, after) := seed symbols document
    (∀ written, Json.writtenMembers? document = some written →
      ∃ members, Json.Keyed written members ∧
        (∀ n, result = .ok n →
          n = (written.map (·.1)).dedup.length ∧ symbols.Seeded members after) ∧
        (∀ e, result = .error e →
          ∃ before key j behind fault, members = before ++ (key, j) :: behind ∧
            Value.ofJson j = .error fault ∧ e = .seed fault ∧ symbols.Seeded before after)) ∧
    (Json.writtenMembers? document = none →
      after = symbols ∧ (Json.ofText? document = none ∧ result = .error .json ∨
        Json.ofText? document ≠ none ∧ result = .error (.seed .notObject))) := by
  simp only [seed]
  cases hwritten : Json.writtenMembers? document with
  | none =>
    refine ⟨fun _ h => (nomatch h), fun _ => ?_⟩
    split
    · rename_i hread
      exact ⟨rfl, .inl ⟨hread, rfl⟩⟩
    · rename_i members hread
      exact absurd hread (Json.ofText?_ne_object hwritten members)
    · rename_i j _ hread
      exact ⟨rfl, .inr ⟨fun hnone => (nomatch hread.symm.trans hnone), rfl⟩⟩
  | some written =>
    refine ⟨fun _ h => ?_, fun h => nomatch h⟩
    cases h
    obtain ⟨members, hmembers, hkeyed⟩ := Json.exists_keyed written
    have hread : Json.ofText? document = some (.object members) := by
      rw [Json.ofText?_of_writtenMembers? hwritten, hmembers]
    have hbind := bindMembers_seeded symbols hkeyed.nodup
    simp only [hread]
    generalize bindMembers symbols members = bound at hbind ⊢
    obtain ⟨result, after⟩ := bound
    refine ⟨members, hkeyed, fun n hn => ?_, fun e he => ?_⟩
    all_goals
      obtain ⟨rfl, hseeded⟩ | ⟨before, key, j, behind, fault, hsplit, hfault, rfl, hseeded⟩ := hbind
    · cases hn
      exact ⟨hkeyed.length, hseeded⟩
    · cases hn
    · cases he
    · cases he
      exact ⟨before, key, j, behind, fault, hsplit, hfault, rfl, hseeded⟩

/-- The ragged table stands between the other keys: the one before it is bound, with its last value. -/
theorem seed_binds_until_failure_ragged :
    let document := "\x7b\"z\": 3, \"b\": 1, " ++
      "\"t\": \x7b\"columns\": [\"a\"], \"rows\": [[1, 2]]\x7d, \"b\": \"\x60x\"\x7d"
    (∃ written members before key j behind fault, Json.writtenMembers? document = some written ∧
      Json.Keyed written members ∧ members = before ++ (key, j) :: behind ∧
      Value.ofJson j = .error fault ∧ Symbols.Seeded ⟨[]⟩ before (seed ⟨[]⟩ document).2) ∧
    (seed ⟨[]⟩ document).2.names = ["b"] ∧
    (seed ⟨[]⟩ "[1]").2 = ⟨[]⟩ := by
  intro document
  refine ⟨?_, by decide +kernel, ((seed_binds_until_failure ⟨[]⟩ "[1]").2 (by decide +kernel)).1⟩
  obtain ⟨written, hwritten⟩ : ∃ written, Json.writtenMembers? document = some written :=
    Option.isSome_iff_exists.mp (by decide +kernel)
  obtain ⟨members, hkeyed, -, herror⟩ := (seed_binds_until_failure ⟨[]⟩ document).1 written hwritten
  have hfailed : (seed ⟨[]⟩ document).1.toOption.isNone = true := by decide +kernel
  cases hresult : (seed ⟨[]⟩ document).1 with
  | ok n => rw [hresult] at hfailed; cases hfailed
  | error e =>
    obtain ⟨before, key, j, behind, fault, hsplit, hfault, -, hseeded⟩ := herror e hresult
    exact ⟨written, members, before, key, j, behind, fault, hwritten, hkeyed, hsplit, hfault,
      hseeded⟩

end TableConsole

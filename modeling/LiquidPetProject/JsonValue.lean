import LiquidPetProject.JsonFields

namespace LiquidPetProject

open FixedWidth

namespace Json

/-- Two documents of one value: the members of an object in any order, a number in any of its kinds. -/
inductive SameValue : Json → Json → Prop
  | scalar {a b : Json} {s : Scalar} (ha : a.scalar = some s) (hb : b.scalar = some s) : SameValue a b
  | array {xs ys : List Json} (h : List.Forall₂ SameValue xs ys) : SameValue (array xs) (array ys)
  | object {xs ys zs : List (String × Json)} (hkeys : xs.map Prod.fst = zs.map Prod.fst)
      (hvalues : List.Forall₂ SameValue (xs.map Prod.snd) (zs.map Prod.snd)) (hperm : zs.Perm ys) :
      SameValue (object xs) (object ys)

mutual

theorem SameValue.refl : (json : Json) → SameValue json json
  | null => .scalar rfl rfl
  | boolean _ => .scalar rfl rfl
  | numberUnsigned _ => .scalar rfl rfl
  | numberInteger _ => .scalar rfl rfl
  | numberFloat _ => .scalar rfl rfl
  | string _ => .scalar rfl rfl
  | array elements => .array (sameElements elements)
  | object members => .object rfl (sameMembers members) (List.Perm.refl members)

theorem sameElements : (elements : List Json) → List.Forall₂ SameValue elements elements
  | [] => .nil
  | element :: elements => .cons (SameValue.refl element) (sameElements elements)

theorem sameMembers : (members : List (String × Json)) →
    List.Forall₂ SameValue (members.map Prod.snd) (members.map Prod.snd)
  | [] => .nil
  | (_, value) :: members => .cons (SameValue.refl value) (sameMembers members)

end

theorem SameValue.rotated {xs front back : List (String × Json)}
    (hkeys : xs.map Prod.fst = (front ++ back).map Prod.fst)
    (hvalues : List.Forall₂ SameValue (xs.map Prod.snd) ((front ++ back).map Prod.snd)) :
    SameValue (.object xs) (.object (back ++ front)) :=
  .object hkeys hvalues List.perm_append_comm

theorem lookup_of_mem {members : List (String × Json)} (hnodup : (members.map Prod.fst).Nodup) {key : String}
    {value : Json} (h : (key, value) ∈ members) : lookup members key = some value := by
  unfold lookup
  cases hfind : members.find? (fun m => m.1 = key) with
  | none =>
    rw [List.find?_eq_none] at hfind
    exact absurd (hfind _ h) (by simp)
  | some found =>
    have hkey := List.find?_some hfind
    rw [decide_eq_true_eq] at hkey
    have heq := List.inj_on_of_nodup_map hnodup (List.mem_of_find?_eq_some hfind) h hkey
    rw [heq]
    rfl

theorem mem_of_lookup {members : List (String × Json)} {key : String} {value : Json}
    (h : lookup members key = some value) : (key, value) ∈ members := by
  obtain ⟨⟨name, found⟩, hfind, rfl⟩ := Option.map_eq_some_iff.mp h
  have hkey := List.find?_some hfind
  rw [decide_eq_true_eq] at hkey
  dsimp only at hkey
  rw [← hkey]
  exact List.mem_of_find?_eq_some hfind

theorem SameValue.member {members : List (String × Json)} {document value : Json} {key : String}
    (h : SameValue (.object members) document) (hnodup : (members.map Prod.fst).Nodup)
    (hkey : lookup members key = some value) :
    ∃ value', document.member key = some value' ∧ SameValue value value' := by
  cases h with
  | scalar ha hb => cases ha
  | object hkeys hvalues hperm =>
    rename_i ys zs
    obtain ⟨i, hi, hget⟩ := List.mem_iff_getElem.mp (mem_of_lookup hkey)
    have hlength : zs.length = members.length := by
      have hmap := congrArg List.length hkeys
      rw [List.length_map, List.length_map] at hmap
      exact hmap.symm
    have hz : i < zs.length := by omega
    have hname : zs[i].1 = key := by
      have hat : (members.map Prod.fst)[i]? = (zs.map Prod.fst)[i]? := by rw [hkeys]
      simp only [List.getElem?_map, List.getElem?_eq_getElem hi, List.getElem?_eq_getElem hz, hget,
        Option.map_some] at hat
      exact (Option.some.inj hat).symm
    have hsame : SameValue value zs[i].2 := by
      have hat := List.Forall₂.get hvalues (i := i) (by simpa using hi) (by simpa using hz)
      simpa [hget] using hat
    refine ⟨zs[i].2, ?_, hsame⟩
    apply lookup_of_mem
    · exact ((hperm.map Prod.fst).nodup_iff.mp (hkeys ▸ hnodup))
    · apply hperm.subset
      rw [← hname]
      exact List.getElem_mem hz

theorem SameValue.getString {s : String} {json : Json} (h : SameValue (.string s) json) :
    json.getString = .ok s := by
  cases h with
  | scalar ha hb =>
    obtain rfl := Option.some.inj ha
    cases json with
    | string t =>
      obtain rfl := Scalar.string.inj (Option.some.inj hb)
      rfl
    | _ => simp [Json.scalar] at hb

theorem SameValue.getInteger (unrepresentable : UnrepresentableCast) {T : IntegerType} {x : T.Value} {json : Json}
    (h : SameValue (.ofInteger x) json) : json.getInteger unrepresentable T = .ok x := by
  cases h with
  | scalar ha hb =>
    have hx : (ofInteger x).scalar = some (.number x.val) := ofInteger_scalarAt x
    rw [hx] at ha
    obtain rfl := Option.some.inj ha
    cases json with
    | numberUnsigned n =>
      have hn : ((n.toNat : ℤ) : ℚ) = x.val := Scalar.number.inj (Option.some.inj hb)
      have hval : (n.toNat : ℤ) = x.val := by exact_mod_cast hn
      rw [Json.getInteger, hval, IntegerType.cast_val]
    | numberInteger z =>
      have hz : ((z.toInt : ℤ) : ℚ) = x.val := Scalar.number.inj (Option.some.inj hb)
      have hval : z.toInt = x.val := by exact_mod_cast hz
      rw [Json.getInteger, hval, IntegerType.cast_val]
    | numberFloat q =>
      have hq : q = x.val := Scalar.number.inj (Option.some.inj hb)
      rw [Json.getInteger, hq]
      exact congrArg Except.ok (Subtype.ext (castRational_intCast unrepresentable x.property))
    | _ => simp [Json.scalar] at hb

theorem SameValue.elements {xs : List Json} {json : Json} (h : SameValue (.array xs) json) :
    ∃ ys, json = .array ys ∧ List.Forall₂ SameValue xs ys := by
  cases h with
  | scalar ha hb => cases ha
  | array hxs => exact ⟨_, rfl, hxs⟩

end Json

namespace JsonHelper

open Json

theorem getValue_sameValue {α : Type} {get : Json → Except JsonException α} {members : List (String × Json)}
    {document value : Json} {key : String} {x : α} (h : SameValue (.object members) document)
    (hnodup : (members.map Prod.fst).Nodup) (hkey : lookup members key = some value)
    (hget : ∀ json, SameValue value json → get json = .ok x) : getValue get document key = .ok x := by
  obtain ⟨found, hfound, hsame⟩ := h.member hnodup hkey
  exact getValue_ok.mpr ⟨found, hfound, hget found hsame⟩

end JsonHelper

end LiquidPetProject

import Escrow.Json.Reading
import Mathlib.Data.List.Induction
import Mathlib.Data.String.Basic

/-!
# What is read of an object

An object that the program makes holds its members in the order of their names, and
each name once. What is read of it under a name is therefore the value that the name
was given first (`record?_object`), whatever the order in which the members were
given. So a record that is written can be read again field by field.
-/

namespace Escrow.Json

variable {ms : List (String × Json)} {name : String} {value : Json}

/-! ## Objects -/

/-- Members in the order of their names, none of which is there twice. -/
def Ordered (ms : List (String × Json)) : Prop :=
  ms.Pairwise (·.1 < ·.1)

/-- No other member is put in than the one given. -/
theorem mem_insertNew {m : String × Json} (h : m ∈ insertNew name value ms) :
    m ∈ ms ∨ m = (name, value) := by
  induction ms with
  | nil => exact .inr (List.mem_singleton.1 h)
  | cons n ms ih =>
    rw [insertNew] at h
    split at h
    · exact (List.mem_cons.1 h).symm
    split at h
    · exact .inl h
    · rcases List.mem_cons.1 h with rfl | h
      · exact .inl List.mem_cons_self
      · exact (ih h).imp_left (List.mem_cons_of_mem _)

/-- Members stay in order with a new one. -/
theorem Ordered.insertNew (h : Ordered ms) : Ordered (insertNew name value ms) := by
  induction ms with
  | nil => exact List.pairwise_singleton _ _
  | cons n ms ih =>
    obtain ⟨hn, hms⟩ := List.pairwise_cons.1 h
    rw [Json.insertNew]
    -- The new member comes before the first one, is already there, or goes on.
    split
    · next hlt =>
      refine List.pairwise_cons.2 ⟨fun m hm => ?_, h⟩
      rcases List.mem_cons.1 hm with rfl | hm
      · exact hlt
      · exact hlt.trans (hn m hm)
    split
    · exact h
    · next hlt hne =>
      refine List.pairwise_cons.2 ⟨fun m hm => ?_, ih hms⟩
      rcases mem_insertNew hm with hm | rfl
      · exact hn m hm
      · exact lt_of_le_of_ne (not_lt.1 hlt) (Ne.symm hne)

/-- A new member is found unless its name was there. -/
theorem Ordered.find?_insertNew (h : Ordered ms) (n : String) :
    (Json.insertNew name value ms).find? (·.1 = n) =
      (ms.find? (·.1 = n)).or (if name = n then some (name, value) else none) := by
  induction ms with
  | nil => by_cases hn : name = n <;> simp [Json.insertNew, hn]
  | cons m ms ih =>
    obtain ⟨hm, hms⟩ := List.pairwise_cons.1 h
    rw [Json.insertNew]
    split
    · next hlt =>
      by_cases hn : name = n
      · -- The names that follow are greater.
        have hnone : (m :: ms).find? (·.1 = n) = none := by
          rw [List.find?_eq_none]
          intro o ho
          rw [decide_eq_true_eq, ← hn]
          rcases List.mem_cons.1 ho with rfl | ho
          · exact hlt.ne'
          · exact (hlt.trans (hm o ho)).ne'
        rw [hnone, if_pos hn, List.find?_cons_of_pos (by simpa using hn)]
        rfl
      · rw [if_neg hn, Option.or_none, List.find?_cons_of_neg (by simpa using hn)]
    split
    · next heq =>
      by_cases hn : name = n
      · rw [List.find?_cons_of_pos (by simpa [← heq] using hn)]
        rfl
      · rw [if_neg hn, Option.or_none]
    · by_cases hn : m.1 = n
      · rw [List.find?_cons_of_pos (by simpa using hn), List.find?_cons_of_pos (by simpa using hn)]
        rfl
      · rw [List.find?_cons_of_neg (by simpa using hn), List.find?_cons_of_neg (by simpa using hn),
          ih hms]

/-- An object holds what each name was given first. -/
theorem exists_object (ms : List (String × Json)) :
    ∃ os, object ms = .obj os ∧ Ordered os ∧ (∀ m ∈ os, m ∈ ms) ∧
      ∀ name, os.find? (·.1 = name) = ms.find? (·.1 = name) := by
  induction ms using List.reverseRecOn with
  | nil => exact ⟨[], rfl, .nil, nofun, fun _ => rfl⟩
  | append_singleton ms m ih =>
    obtain ⟨os, hos, hordered, hmem, hfind⟩ := ih
    have hobject : object (ms ++ [m]) = .obj (insertNew m.1 m.2 os) := by
      rw [object, List.foldl_append, Json.obj.inj hos]
      rfl
    refine ⟨_, hobject, hordered.insertNew, fun n hn => ?_, fun name => ?_⟩
    · rcases mem_insertNew hn with hn | rfl
      · exact List.mem_append_left _ (hmem n hn)
      · exact List.mem_append_right _ List.mem_cons_self
    · rw [hordered.find?_insertNew, hfind, List.find?_append]
      congr 1
      by_cases hn : m.1 = name
      · subst hn
        simp
      · simp [hn]

/-- In ordered members a name is found once or not at all. -/
theorem Ordered.unique?_eq (h : Ordered ms) (name : String) :
    unique? name ms = some ((ms.find? (·.1 = name)).map Prod.snd) := by
  have hfilter : ms.filter (·.1 = name) = (ms.find? (·.1 = name)).toList := by
    induction ms with
    | nil => rfl
    | cons m ms ih =>
      obtain ⟨hm, hms⟩ := List.pairwise_cons.1 h
      by_cases hn : m.1 = name
      · have hnone : ms.filter (·.1 = name) = [] := by
          rw [List.filter_eq_nil_iff]
          intro o ho
          simpa [← hn] using (hm o ho).ne'
        rw [List.filter_cons_of_pos (by simpa using hn), List.find?_cons_of_pos (by simpa using hn),
          hnone]
        rfl
      · rw [List.filter_cons_of_neg (by simpa using hn), List.find?_cons_of_neg (by simpa using hn),
          ih hms]
  rw [unique?, hfilter]
  cases ms.find? (·.1 = name) <;> rfl

/-- Of members in order each field of a record finds the one of its name. -/
theorem Ordered.record?_eq (h : Ordered ms) (names : List String) (least : Nat) :
    (obj ms).record? names least =
      some (names.map fun name => (ms.find? (·.1 = name)).map Prod.snd) := by
  have hunique : (fun name => unique? name ms) =
      fun name => some ((ms.find? (·.1 = name)).map Prod.snd) := funext h.unique?_eq
  rw [record?, hunique]
  exact List.mapM_pure

/-- A record is read from the members that it was made of. -/
theorem record?_object (names : List String) (least : Nat) (ms : List (String × Json)) :
    (object ms).record? names least =
      some (names.map fun name => (ms.find? (·.1 = name)).map Prod.snd) := by
  obtain ⟨os, hos, hordered, -, hfind⟩ := exists_object ms
  rw [hos, hordered.record?_eq]
  exact congrArg some (List.map_congr_left fun name _ => by rw [hfind])

/-- What a record says it is can be read, and with it the rest. -/
theorem exists_tagged?_object (tag s : String) (rest : List (String × Json)) :
    ∃ body, (object ((tag, .str s) :: rest)).tagged? tag = some (s, body) ∧
      ∀ names least, tag ∉ names →
        body.record? names least =
          some (names.map fun name => (rest.find? (·.1 = name)).map Prod.snd) := by
  obtain ⟨os, hos, hordered, -, hfind⟩ := exists_object ((tag, .str s) :: rest)
  refine ⟨.obj (os.filter (·.1 ≠ tag)), ?_, fun names least hnames => ?_⟩
  · rw [hos, tagged?, hordered.unique?_eq, hfind, List.find?_cons_of_pos (by simp)]
    rfl
  · have hordered : Ordered (os.filter (·.1 ≠ tag)) := List.Pairwise.filter _ hordered
    rw [hordered.record?_eq]
    refine congrArg some (List.map_congr_left fun name hname => ?_)
    -- Under another name than the tag the same is found.
    have hne : name ≠ tag := fun h => hnames (h ▸ hname)
    have hrest : ((tag, .str s) :: rest).find? (·.1 = name) = rest.find? (·.1 = name) :=
      List.find?_cons_of_neg (by simpa using hne.symm)
    rw [List.find?_filter, ← hrest, ← hfind]
    congr 2
    funext m
    by_cases hm : m.1 = name <;> simp [hm, hne]

/-! ## Values -/

variable {α : Type}

theorem nat?_nat {n bound : Nat} (h : n < bound) : (nat n).nat? bound = some n := by
  rw [nat?, nat, int?, if_pos (by omega)]
  rfl

theorem byte?_nat (b : UInt8) : (nat b.toNat).byte? = some b := by
  rw [byte?, nat?_nat b.toNat_lt]
  exact congrArg some UInt8.ofNat_toNat

theorem word?_nat (n : UInt32) : (nat n.toNat).word? = some n := by
  rw [word?, nat?_nat n.toNat_lt]
  exact congrArg some UInt32.ofNat_toNat

theorem amount?_int (a : Amount) : (int a.toInt).amount? = some a := by
  rw [amount?, int?, if_pos ⟨a.minValue_le_toInt, a.toInt_le⟩]
  exact congrArg some (Int64.ofInt_toInt a)

theorem list?_list {f : Json → Option α} {g : α → Json} {as : List α}
    (h : ∀ a ∈ as, f (g a) = some a) : (list g as).list? f = some as := by
  rw [list, list?]
  induction as with
  | nil => rfl
  | cons a as ih =>
    obtain ⟨ha, has⟩ := List.forall_mem_cons.1 h
    rw [List.map_cons, List.mapM_cons, ha, ih has]
    rfl

/-- An optional value is read back if the value is, and is not taken for none. -/
theorem optional_ofOption {f : Json → Option α} {g : α → Json} {o : Option α}
    (h : ∀ a ∈ o, f (g a) = some a ∧ g a ≠ .null) : optional f (some (ofOption g o)) = some o := by
  cases o with
  | none => rfl
  | some a =>
    obtain ⟨hread, hnull⟩ := h a rfl
    rw [ofOption, optional, hread]
    · rfl
    · exact hnull

/-! ## Depth -/

theorem isWhole_arr {depth : Nat} {vs : List Json} (h : ∀ v ∈ vs, v.isWhole depth) :
    (arr vs).isWhole (depth + 1) := by
  have hvs : areWhole depth vs := by
    induction vs with
    | nil => rfl
    | cons v vs ih =>
      obtain ⟨hv, hvs⟩ := List.forall_mem_cons.1 h
      rw [areWhole, hv, ih hvs]
      rfl
  simpa [isWhole] using hvs

theorem isWhole_object {depth : Nat} {ms : List (String × Json)}
    (h : ∀ m ∈ ms, m.2.isWhole depth) : (object ms).isWhole (depth + 1) := by
  obtain ⟨os, hos, -, hmem, -⟩ := exists_object ms
  have hwhole : ∀ ns : List (String × Json), (∀ m ∈ ns, m.2.isWhole depth) →
      areWholeMembers depth ns := by
    intro ns hns
    induction ns with
    | nil => rfl
    | cons n ns ih =>
      obtain ⟨hn, hns⟩ := List.forall_mem_cons.1 hns
      rw [areWholeMembers, hn, ih hns]
      rfl
  rw [hos]
  simpa [isWhole] using hwhole os fun m hm => h m (hmem m hm)

end Escrow.Json

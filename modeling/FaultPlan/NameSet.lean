/-
  Sets of names, kept as the increasing list of their members.

  The order is that of the code points, which is also the order of the UTF-8 bytes.  Two sets with
  the same members are equal, however they were built (`NameSet.ext_mem`).
-/

namespace FaultPlan

/-- A name goes to its place in an increasing list, unless it is there already. -/
def insertName (n : String) : List String → List String
  | [] => [n]
  | m :: ms =>
    if n < m then n :: m :: ms
    else if n = m then m :: ms
    else m :: insertName n ms

theorem mem_insertName {n x : String} : ∀ {ms : List String}, x ∈ insertName n ms ↔ x = n ∨ x ∈ ms
  | [] => by simp [insertName]
  | m :: ms => by
    simp only [insertName]
    split
    · simp
    · split
      · next h => subst h; simp
      · simp only [List.mem_cons, @mem_insertName n x ms]; exact or_left_comm

theorem pairwise_insertName {n : String} :
    ∀ {ms : List String}, ms.Pairwise (· < ·) → (insertName n ms).Pairwise (· < ·)
  | [], _ => by simp [insertName]
  | m :: ms, h => by
    obtain ⟨hm, hms⟩ := List.pairwise_cons.1 h
    simp only [insertName]
    split
    · next hn =>
      refine List.pairwise_cons.2 ⟨fun x hx => ?_, h⟩
      rcases List.mem_cons.1 hx with rfl | hx
      · exact hn
      · exact String.lt_trans hn (hm x hx)
    · split
      · exact h
      · next hn hne =>
        refine List.pairwise_cons.2 ⟨fun x hx => ?_, pairwise_insertName hms⟩
        rcases mem_insertName.1 hx with rfl | hx
        · exact Std.lt_of_le_of_ne (String.not_lt.1 hn) (Ne.symm hne)
        · exact hm x hx

/-- A finite set of names. -/
structure NameSet where
  names : List String
  increasing : names.Pairwise (· < ·)

namespace NameSet

def empty : NameSet := ⟨[], .nil⟩

def insert (s : NameSet) (n : String) : NameSet :=
  ⟨insertName n s.names, pairwise_insertName s.increasing⟩

def insertAll (s : NameSet) (ns : List String) : NameSet := ns.foldl insert s

def contains (s : NameSet) (n : String) : Bool := s.names.contains n

theorem contains_empty (n : String) : empty.contains n = false := rfl

theorem contains_insert (s : NameSet) (n x : String) :
    (s.insert n).contains x = (x == n || s.contains x) := by
  rw [Bool.eq_iff_iff]
  simp [contains, insert, mem_insertName]

/-- Sets with the same members are the same set. -/
theorem ext_mem {s t : NameSet} (h : ∀ n, s.contains n = t.contains n) : s = t := by
  obtain ⟨l, hl⟩ := s
  obtain ⟨m, hm⟩ := t
  have hmem : ∀ n, n ∈ l ↔ n ∈ m := fun n => by simpa [contains] using Bool.eq_iff_iff.1 (h n)
  have nodup {k : List String} (hk : k.Pairwise (· < ·)) : k.Nodup :=
    hk.imp fun hab => by rintro rfl; exact String.lt_irrefl _ hab
  have hperm : l.Perm m := (List.perm_ext_iff_of_nodup (nodup hl) (nodup hm)).2 hmem
  have heq : l = m := hperm.eq_of_pairwise
    (fun a b _ _ hab hba => absurd (String.lt_trans hab hba) (String.lt_irrefl a)) hl hm
  subst heq; rfl

example : (empty.insertAll ["z", "a", "é", "a"]).names = ["a", "z", "é"] := by decide

end NameSet
end FaultPlan

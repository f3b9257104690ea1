import TypedApi.Proofs.Service.NamePool

/-!
# Requests for names, one after another

A request for a name that is taken tries the numbers from two on, one by one, until one makes the
name free. The trials are told here without any bound on their number. They end all the same, since
names with different numbers are different and only finitely many names are taken. So each of a
sequence of requests has one answer, and no answer is a name that was taken before.
-/

namespace TypedApi.NamePool

section Statements

/-- The trials of numbers for a name, from one number to the one that makes the name free. -/
inductive Tries (pool : NamePool) (base : String) : Nat → Nat → Prop
  /-- A number that makes the name free ends the trials. -/
  | free {n : Nat} (h : pool.numbered base n ∉ pool.used) : Tries pool base n n
  /-- After any other number the next one is tried. -/
  | taken {n m : Nat} (h : pool.numbered base n ∈ pool.used) (next : Tries pool base (n + 1) m) :
    Tries pool base n m

/-- How a request ends: with the name itself, or with trials from two on. -/
inductive Answers (pool : NamePool) (base : String) : String → Prop
  /-- A name that is not taken is handed out as it is. -/
  | unused (h : base ∉ pool.used) : Answers pool base base
  /-- A name that is taken is handed out with the number that ends the trials. -/
  | repeated {n : Nat} (h : base ∈ pool.used) (trials : pool.Tries base 2 n) :
    Answers pool base (pool.numbered base n)

/-- How requests end one after another: each is made to the pool that the one before leaves. -/
inductive Serves : NamePool → List String → List String → NamePool → Prop
  /-- Without a request the pool stays. -/
  | done (pool : NamePool) : Serves pool [] [] pool
  /-- The first request takes its answer out of the pool. -/
  | next {pool last : NamePool} {base name : String} {bases names : List String}
    (first : pool.Answers base name) (others : Serves (pool.take name) bases names last) :
    Serves pool (base :: bases) (name :: names) last

/-- Ask for names one after another: the answers, and the pool without them. -/
def claimAll (pool : NamePool) : List String → List String × NamePool
  | [] => ([], pool)
  | base :: rest =>
    let (name, left) := pool.claim base
    let (names, last) := left.claimAll rest
    (name :: names, last)

/-- The name to hand out where some names are taken: the name itself, or the name with the least
number from two on that makes it free. -/
inductive Suits (taken : List String) (separator base : String) : String → Prop
  /-- The name itself is free. -/
  | itself (h : base ∉ taken) : Suits taken separator base base
  /-- All numbers in front of the given one make names that are taken. -/
  | least {n : Nat} (h : base ∈ taken) (atLeastTwo : 2 ≤ n)
    (free : base ++ separator ++ toString n ∉ taken)
    (before : ∀ m, 2 ≤ m → m < n → base ++ separator ++ toString m ∈ taken) :
    Suits taken separator base (base ++ separator ++ toString n)

/-- What the answers to some requests must be, and what must be left of the pool. -/
structure Allots (pool : NamePool) (bases names : List String) (last : NamePool) : Prop where
  /-- Every request gets to its answer. -/
  returns : Serves pool bases names last
  /-- The requests end in no other way. -/
  unique : ∀ others left, Serves pool bases others left → others = names ∧ left = last
  /-- There are as many answers as requests. -/
  length : names.length = bases.length
  /-- An answer suits what is taken when the request is made. -/
  suits : ∀ i base, bases[i]? = some base →
    ∃ name, names[i]? = some name ∧ Suits (pool.used ++ names.take i) pool.separator base name
  /-- No two answers are the same. -/
  distinct : names.Nodup
  /-- No answer is a name that was taken at first. -/
  unreserved : ∀ name ∈ names, name ∉ pool.used
  /-- Taken in the end are the names that were taken at first, and the answers. -/
  used : ∀ name, name ∈ last.used ↔ name ∈ pool.used ∨ name ∈ names

end Statements

section Trials

variable {pool : NamePool} {base name : String} {n m : Nat}

/-- Trials end on the least number that makes the name free. -/
theorem tries_iff : pool.Tries base n m ↔ n ≤ m ∧ pool.numbered base m ∉ pool.used ∧
    ∀ k, n ≤ k → k < m → pool.numbered base k ∈ pool.used := by
  constructor
  · intro h
    induction h with
    | free hfree => exact ⟨Nat.le_refl _, hfree, fun k hle hlt => by omega⟩
    | @taken n m htaken _ ih =>
      obtain ⟨hle, hfree, hbefore⟩ := ih
      refine ⟨by omega, hfree, fun k hk hlt => ?_⟩
      by_cases hfirst : k = n
      · rw [hfirst]
        exact htaken
      · exact hbefore k (by omega) hlt
  · rintro ⟨hle, hfree, hbefore⟩
    obtain ⟨distance, rfl⟩ := Nat.exists_eq_add_of_le hle
    induction distance generalizing n with
    | zero => exact .free hfree
    | succ distance ih =>
      have hsame : n + 1 + distance = n + (distance + 1) := by omega
      refine .taken (hbefore n (Nat.le_refl n) (by omega)) ?_
      rw [← hsame] at hfree hbefore ⊢
      exact ih (by omega) hfree fun k hk hlt => hbefore k (by omega) hlt

/-- Trials end, namely on the number that is found within as many steps as there are taken names. -/
theorem tries_freeNumber (pool : NamePool) (base : String) (n : Nat) :
    pool.Tries base n (pool.freeNumber base pool.used.length n) :=
  tries_iff.mpr ⟨(pool.freeNumber_bounds base _ n).1, pool.numbered_freeNumber_not_mem base n,
    fun _ => numbered_mem_of_lt_freeNumber⟩

/-- Trials end on one number only. -/
theorem Tries.unique {m' : Nat} (h : pool.Tries base n m) (h' : pool.Tries base n m') : m = m' := by
  obtain ⟨hle, hfree, hbefore⟩ := tries_iff.mp h
  obtain ⟨hle', hfree', hbefore'⟩ := tries_iff.mp h'
  rcases Nat.lt_trichotomy m m' with hlt | heq | hlt
  · exact absurd (hbefore' m hle hlt) hfree
  · exact heq
  · exact absurd (hbefore m' hle' hlt) hfree'

/-- A request has one answer, the free name. -/
theorem answers_iff : pool.Answers base name ↔ pool.freeName base = name := by
  rw [freeName]
  constructor
  · intro h
    cases h with
    | unused hunused => rw [if_neg (by simpa using hunused)]
    | repeated htaken htrials =>
      rw [if_pos (by simpa using htaken), (tries_freeNumber pool base 2).unique htrials]
  · rintro rfl
    split
    · rename_i htaken
      exact .repeated (by simpa using htaken) (tries_freeNumber pool base 2)
    · rename_i hunused
      exact .unused (by simpa using hunused)

/-- The free name is the one to hand out. -/
theorem suits_freeName (pool : NamePool) (base : String) :
    Suits pool.used pool.separator base (pool.freeName base) := by
  have hanswer : pool.Answers base (pool.freeName base) := answers_iff.mpr rfl
  generalize pool.freeName base = name at hanswer
  cases hanswer with
  | unused hunused => exact .itself hunused
  | repeated htaken htrials =>
    obtain ⟨hle, hfree, hbefore⟩ := tries_iff.mp htrials
    exact .least htaken hle hfree hbefore

/-- Which name to hand out depends only on which names are taken. -/
theorem Suits.of_mem_iff {taken taken' : List String} {separator : String}
    (hsame : ∀ other, other ∈ taken ↔ other ∈ taken') (h : Suits taken separator base name) :
    Suits taken' separator base name := by
  cases h with
  | itself hfree => exact .itself (mt (hsame base).mpr hfree)
  | least htaken htwo hfree hbefore =>
    exact .least ((hsame base).mp htaken) htwo (mt (hsame _).mpr hfree)
      fun m hm hlt => (hsame _).mp (hbefore m hm hlt)

end Trials

section Sequences

variable {pool last : NamePool} {base : String} {bases names : List String}

theorem claimAll_cons (pool : NamePool) (base : String) (rest : List String) :
    pool.claimAll (base :: rest) =
      (pool.freeName base :: ((pool.take (pool.freeName base)).claimAll rest).1,
        ((pool.take (pool.freeName base)).claimAll rest).2) := rfl

/-- Requests end in one way, which is computed request by request. -/
theorem serves_iff : Serves pool bases names last ↔ pool.claimAll bases = (names, last) := by
  constructor
  · intro h
    induction h with
    | done pool => rfl
    | next hfirst _ ih => rw [claimAll_cons, answers_iff.mp hfirst, ih]
  · intro h
    induction bases generalizing pool names with
    | nil =>
      obtain ⟨rfl, rfl⟩ := Prod.mk.inj h
      exact .done pool
    | cons base rest ih =>
      rw [claimAll_cons] at h
      obtain ⟨rfl, rfl⟩ := Prod.mk.inj h
      exact .next (answers_iff.mpr rfl) (ih rfl)

/-- Each request takes its answer out of the pool. -/
theorem used_claimAll (pool : NamePool) (bases : List String) :
    (pool.claimAll bases).2.used = (pool.claimAll bases).1.reverse ++ pool.used := by
  induction bases generalizing pool with
  | nil => rfl
  | cons base rest ih =>
    rw [claimAll_cons, ih, used_take, List.reverse_cons, List.append_assoc, List.singleton_append]

/-- There is an answer to each request. -/
theorem length_claimAll (pool : NamePool) (bases : List String) :
    (pool.claimAll bases).1.length = bases.length := by
  induction bases generalizing pool with
  | nil => rfl
  | cons base rest ih => rw [claimAll_cons, List.length_cons, List.length_cons, ih]

/-- The answers are different from each other and from the names that were taken at first: each is
free when it is handed out, and taken from then on. -/
theorem nodup_claimAll (pool : NamePool) (bases : List String) :
    (pool.claimAll bases).1.Nodup ∧ ∀ name ∈ (pool.claimAll bases).1, name ∉ pool.used := by
  induction bases generalizing pool with
  | nil => exact ⟨List.nodup_nil, List.forall_mem_nil _⟩
  | cons base rest ih =>
    obtain ⟨hdistinct, hfresh⟩ := ih (pool.take (pool.freeName base))
    rw [claimAll_cons, List.nodup_cons, List.forall_mem_cons]
    refine ⟨⟨fun hmem => ?_, hdistinct⟩, pool.freeName_not_mem base, fun name hmem hused => ?_⟩
    · exact hfresh _ hmem List.mem_cons_self
    · exact hfresh name hmem (List.mem_cons_of_mem _ hused)

/-- Each answer suits the names that are taken at first and by the answers in front of it. -/
theorem suits_claimAll (pool : NamePool) {i : Nat} (h : bases[i]? = some base) :
    ∃ name, (pool.claimAll bases).1[i]? = some name ∧
      Suits (pool.used ++ (pool.claimAll bases).1.take i) pool.separator base name := by
  induction bases generalizing pool i with
  | nil => simp at h
  | cons first rest ih =>
    rw [claimAll_cons]
    cases i with
    | zero =>
      obtain rfl : first = base := by simpa using h
      refine ⟨pool.freeName first, rfl, ?_⟩
      rw [List.take_zero, List.append_nil]
      exact pool.suits_freeName first
    | succ i =>
      obtain ⟨name, hname, hsuits⟩ := ih (pool.take (pool.freeName first)) h
      refine ⟨name, hname, hsuits.of_mem_iff fun other => ?_⟩
      rw [List.take_succ_cons, used_take]
      exact List.perm_middle.symm.mem_iff

end Sequences

/-- Requests all end, and their answers are the names to hand out: each is the name itself or has
the least number that makes it free, and none is taken twice. -/
theorem allots_claimAll (pool : NamePool) (bases : List String) :
    Allots pool bases (pool.claimAll bases).1 (pool.claimAll bases).2 where
  returns := serves_iff.mpr rfl
  unique _ _ h := Prod.mk.inj (serves_iff.mp h).symm
  length := length_claimAll pool bases
  suits _ _ h := suits_claimAll pool h
  distinct := (nodup_claimAll pool bases).1
  unreserved := (nodup_claimAll pool bases).2
  used name := by rw [used_claimAll, List.mem_append, List.mem_reverse, or_comm]

/-- An answer with a number is in the way of a later request for that very name. -/
example : (claimAll ⟨["get"], ""⟩ ["list", "list", "list2", "get"]).1 =
    ["list", "list2", "list22", "get2"] := by
  decide +kernel

end TypedApi.NamePool

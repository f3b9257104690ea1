/-!
# Unique names

A pool hands out names that nobody has yet. A name that is taken gets the least number from two on
that makes it free; among as many numbers as there are taken names, and one more, one is free.
-/

namespace TypedApi

/-- The names that are taken, and what stands between a name and its number. -/
structure NamePool where
  used : List String
  separator : String
  deriving DecidableEq, Repr

namespace NamePool

/-- A name with a number. -/
def numbered (pool : NamePool) (base : String) (n : Nat) : String :=
  base ++ pool.separator ++ toString n

/-- The least number from `n` on, within so many steps, that makes a name free. -/
def freeNumber (pool : NamePool) (base : String) : Nat → Nat → Nat
  | 0, n => n
  | steps + 1, n =>
    if pool.used.contains (pool.numbered base n) then pool.freeNumber base steps (n + 1) else n

/-- The name that a request for `base` is answered with. -/
def freeName (pool : NamePool) (base : String) : String :=
  if pool.used.contains base then
    pool.numbered base (pool.freeNumber base pool.used.length 2)
  else base

/-- Take a name out of the pool. -/
def take (pool : NamePool) (name : String) : NamePool :=
  { pool with used := name :: pool.used }

/-- Ask for a name: the answer, and the pool without it. -/
def claim (pool : NamePool) (base : String) : String × NamePool :=
  let name := pool.freeName base
  (name, pool.take name)

@[simp] theorem used_take (pool : NamePool) (name : String) :
    (pool.take name).used = name :: pool.used := rfl

end NamePool

end TypedApi

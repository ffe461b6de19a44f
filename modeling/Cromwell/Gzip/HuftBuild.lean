import Cromwell.Gzip.Misc

/-!
# Building the lookup tables

`huft_build` makes a set of tables that decode the codes with given lengths. It
counts the lengths, fills the last length up with dummy codes, sorts the values by
the lengths of their codes, and then takes the codes in order: each is entered at
every place of its table that begins with it, and a table of the next level is made
where a code does not fit. The tables are named by their addresses. The linked list
that `huft_free` walks to hand every table to `gzip_free`, which does nothing, is
left out, and so is `hufts`.
-/

namespace Cromwell.Gzip

open Cromwell.Std

def bmax : Nat := 16
def nMax : Nat := 288

/-- `sizeof(struct huft)` -/
def sizeofHuft : Nat := 8

/-! ## Lengths -/

/-- `c[]`, how many codes there are of each length. -/
def countLengths (b : List Nat) : List Nat :=
  b.foldl (fun c length => c.modify length (· + 1)) (List.replicate (bmax + 1) 0)

/-- `for (j = 1; j <= BMAX; j++) if (c[j]) break;` -/
def minLength (c : Nat → Nat) : (passes : Nat) → (j : Nat) → Nat
  | 0, j => j
  | passes + 1, j => if c j ≠ 0 then j else minLength c passes (j + 1)

/-- `for (i = BMAX; i; i--) if (c[i]) break;` -/
def maxLength (c : Nat → Nat) : (i : Nat) → Nat
  | 0 => 0
  | i + 1 => if c (i + 1) ≠ 0 then i + 1 else maxLength c i

/-- `for (y = 1 << j; j < i; j++, y <<= 1) if ((y -= c[j]) < 0) return 2;` and the same
for `c[i]` behind it, `passes` being `i - j`. -/
def leftOver (c : Nat → Nat) : (passes : Nat) → (j : Nat) → (y : Int) → Option Int
  | 0, j, y => if y - c j < 0 then none else some (y - c j)
  | passes + 1, j, y =>
    if y - c j < 0 then none else leftOver c passes (j + 1) ((y - c j) * 2)

/-! ## Values -/

/-- Where the values of a length start; there are none of length 0. -/
def startOffset (c : Nat → Nat) : (length : Nat) → Nat
  | 0 => 0
  | 1 => 0
  | k + 2 => startOffset c (k + 1) + c (k + 1)

/-- `x[]` -/
def startOffsets (c : Nat → Nat) : List Nat := (List.range (bmax + 1)).map (startOffset c)

/-- `if ((j = *p++) != 0) v[x[j]++] = i;` for the codes from `i` on. -/
def sortValues : (b : List Nat) → (i : Nat) → (x : List Nat) → (v : Nat → Nat) → Nat → Nat
  | [], _, _, v => v
  | j :: b, i, x, v =>
    if j ≠ 0 then
      sortValues b (i + 1) (x.modify j (· + 1)) (Function.update v (x.getD j 0) i)
    else sortValues b (i + 1) x v

/-! ## Codes -/

/-- `u[h]` and `x[h]`: a table, and the code at which it was begun. -/
structure Level where
  u : Nat
  x : Nat
  deriving Repr, DecidableEq

/-- What `huft_build` works out before it makes tables. -/
structure Plan where
  /-- `c[]`, with the dummy codes. -/
  c : Nat → Nat
  /-- The number of codes. -/
  n : Nat
  s : Nat
  d : List Nat
  e : List Nat
  /-- The greatest length. -/
  g : Nat
  /-- The bits of a table. -/
  l : Nat
  v : Nat → Nat

/-- The variables of the loop over the codes. The levels are the stacks `u` and `x` from
`h` down, so that `h` is one less than their number, and `w` is `l * h`. -/
structure Builder where
  i : Nat
  p : Nat
  levels : List Level
  q : Nat
  z : Nat
  r : Huft
  /-- `*t` -/
  t : Nat

/-- `while (++j < z) { if ((f <<= 1) <= *++xp) break; f -= *xp; }` -/
def smallerTables (c : Nat → Nat) (z : Nat) : (passes : Nat) → (j f k : Nat) → Nat
  | 0, j, _, _ => j
  | passes + 1, j, f, k =>
    if j + 1 < z then
      if f * 2 ≤ c (k + 1) then j + 1
      else smallerTables c z passes (j + 1) (f * 2 - c (k + 1)) (k + 1)
    else j + 1

/-- `j`, the bits of the table for a code of `k` bits at `w`, `a` more of which follow. -/
def tableBits (plan : Plan) (w k a : Nat) : Nat :=
  let z := min (plan.g - w) plan.l
  if 2 ^ (k - w) > a + 1 then
    smallerTables plan.c z (z + 1) (k - w) (2 ^ (k - w) - (a + 1)) k
  else k - w

/-- `for (j = i >> w; j < z; j += f) q[j] = r;` -/
def fillEntries (r : Huft) (z f : Nat) : (passes : Nat) → (j : Nat) → (Nat → Huft) → Nat → Huft
  | 0, _, q => q
  | passes + 1, j, q =>
    if j < z then fillEntries r z f passes (j + f) (Function.update q j r) else q

/-- `for (j = 1 << (k - 1); i & j; j >>= 1) i ^= j; i ^= j;`, from bit `k - 1` on. -/
def increment : (k : Nat) → (i : Nat) → Nat
  | 0, i => i
  | k + 1, i => if i &&& 2 ^ k ≠ 0 then increment k (i ^^^ 2 ^ k) else i ^^^ 2 ^ k

/-- `while ((i & ((1 << w) - 1)) != x[h]) { h--; w -= l; }` -/
def backUp (l i : Nat) : List Level → List Level
  | [] => []
  | level :: below =>
    if i &&& (2 ^ (l * below.length) - 1) ≠ level.x then backUp l i below else level :: below

/-- The entries of the table at an address. -/
def putTable (q : Nat) (entries : Nat → Huft) : Program State Unit :=
  Program.alter fun s => { s with tables := Function.update s.tables q entries }

/-- The body of `while (k > w + l)`: a table for the next level, linked to the last one. -/
def openTable (plan : Plan) (k a : Nat) (builder : Builder) : Program State Builder := do
  let w := plan.l * builder.levels.length
  let j := tableBits plan w k a
  let z := 2 ^ j
  -- The first entry of what is allocated is the link to the next table.
  let q := (← gzipMalloc ((z + 1) * sizeofHuft)) + sizeofHuft
  match builder.levels with
  | [] => return { builder with levels := [⟨q, 0⟩], q, z, t := q }
  | level :: below =>
    let r : Huft := { e := 16 + j, b := plan.l, v := q }
    let entries ← Program.look fun s => s.tables level.u
    putTable level.u (Function.update entries (builder.i >>> (w - plan.l)) r)
    return { builder with levels := ⟨q, builder.i⟩ :: level :: below, q, z, r }

/-- `while (k > w + l)`: make the tables up to the one for a code of `k` bits. -/
def makeTables (plan : Plan) (k a : Nat) : (passes : Nat) → Builder → Program State Builder
  | 0, builder => return builder
  | passes + 1, builder =>
    if k > plan.l * builder.levels.length then do
      let builder ← openTable plan k a builder
      makeTables plan k a passes builder
    else return builder

/-- `if (p >= v + n) ... else if (*p < s) ... else ...`: the entry for the code at `p`. -/
def setEntry (plan : Plan) (bits : Nat) (builder : Builder) : Builder :=
  let r := { builder.r with b := bits }
  if plan.n ≤ builder.p then { builder with r := { r with e := 99 } }
  else
    let value := plan.v builder.p
    if value < plan.s then
      -- 256 is end-of-block code
      { builder with
        r := { r with e := if value < 256 then 16 else 15 }.setN value, p := builder.p + 1 }
    else
      { builder with
        r := { r with e := plan.e.getD (value - plan.s) 0 % 256 }.setN
          (plan.d.getD (value - plan.s) 0)
        p := builder.p + 1 }

/-- The pass for a code of `k` bits, `a` more of which follow. -/
def placeCode (plan : Plan) (k a : Nat) (builder : Builder) : Program State Builder := do
  let builder ← makeTables plan k a k builder
  let w := plan.l * (builder.levels.length - 1)
  let builder := setEntry plan (k - w) builder
  let entries ← Program.look fun s => s.tables builder.q
  putTable builder.q
    (fillEntries builder.r builder.z (2 ^ (k - w)) (builder.z + 1) (builder.i >>> w) entries)
  let i := increment k builder.i
  return { builder with i, levels := backUp plan.l i builder.levels }

/-- `while (a--)` -/
def eachCode (plan : Plan) (k : Nat) : (a : Nat) → Builder → Program State Builder
  | 0, builder => return builder
  | a + 1, builder => do
    let builder ← placeCode plan k a builder
    eachCode plan k a builder

/-- `for (; k <= g; k++)`, `passes` being `g + 1 - k`. -/
def eachLength (plan : Plan) : (passes : Nat) → (k : Nat) → Builder → Program State Builder
  | 0, _, builder => return builder
  | passes + 1, k, builder => do
    let builder ← eachCode plan k (plan.c k) builder
    eachLength plan passes (k + 1) builder

/-- What `huft_build` returns and leaves in `*t` and `*m`. -/
structure Built where
  result : Nat
  t : Nat
  m : Nat
  deriving Repr, DecidableEq

/-- `huft_build`; `n` is the number of lengths in `b`, and `NULL` is 0. -/
def huftBuild (b : List Nat) (s : Nat) (d e : List Nat) (m : Nat) : Program State Built := do
  let found ← Program.look fun state => state.stack state.builds
  Program.alter fun state => { state with builds := state.builds + 1 }
  let n := b.length
  let counts := countLengths b
  let c := fun k => counts.getD k 0
  if c 0 = n then return ⟨0, 0, 0⟩
  else
    let j := minLength c bmax 1
    let i := maxLength c bmax
    -- `m` is raised to the least length and then bounded by the greatest.
    let l := min (max m j) i
    match leftOver c (i - j) j (2 ^ j) with
    | none => return ⟨2, 0, l⟩
    | some y =>
      let padded := Function.update c i (c i + y.toNat)
      let v := sortValues b 0 (startOffsets padded) found.v
      let plan : Plan := { c := padded, n, s, d, e, g := i, l, v }
      let builder ← eachLength plan (i + 1 - j) j
        { i := 0, p := 0, levels := [], q := 0, z := 0, r := found.r, t := 0 }
      return ⟨if y ≠ 0 ∧ i ≠ 1 then 1 else 0, builder.t, l⟩

end Cromwell.Gzip

import Mathlib.Tactic

/-!
# Byte-stream codecs

A reader takes a value off the front of a byte list or fails. `Reads r bs a` says that the
reader `r` turns exactly the bytes `bs` into `a`, whatever bytes follow. The predicate is closed
under sequencing, so the round trip of a record format is assembled from those of its fields, and
a format that loses information is described by the value it gives back.

## Main definitions

* `Reader`: a stateful, fallible computation over the remaining bytes.
* `Reads`: the specification of a reader on the bytes of one value.
* `littleEndian`: a natural number written in a fixed number of bytes.
* `readMany`: one reader run a given number of times.
-/

namespace Jumpcoin.Codec

variable {α β : Type}

abbrev Bytes := List UInt8

abbrev Reader := StateT Bytes Option

variable {r : Reader α} {f : α → Reader β} {bs cs rest rem : Bytes} {a : α} {b : β}
  {write : α → Bytes} {P : α → Prop}

lemma run_bind_eq_some : (r >>= f).run bs = some (b, rem) ↔
      ∃ a rest, r.run bs = some (a, rest) ∧ (f a).run rest = some (b, rem) := by
  simp [StateT.run_bind, Option.bind_eq_some_iff]

lemma run_pure_eq_some {a b : α} :
    (pure a : Reader α).run bs = some (b, rem) ↔ a = b ∧ bs = rem := by
  simp [Option.pure_def]

/-- The reader `r` turns exactly the bytes `bs` into `a`, whatever follows them. -/
def Reads (r : Reader α) (bs : Bytes) (a : α) : Prop :=
  ∀ rest, r.run (bs ++ rest) = some (a, rest)

namespace Reads

lemma pure (a : α) : Reads (Pure.pure a) [] a := by
  intro rest
  rfl

lemma bind (hr : Reads r bs a) (hf : Reads (f a) cs b) : Reads (r >>= f) (bs ++ cs) b := by
  intro rest
  rw [StateT.run_bind, List.append_assoc, hr]
  exact hf rest

lemma bind_nil (hr : Reads r bs a) (hf : Reads (f a) [] b) : Reads (r >>= f) bs b :=
  List.append_nil bs ▸ hr.bind hf

lemma nil_bind (hr : Reads r [] a) (hf : Reads (f a) bs b) : Reads (r >>= f) bs b :=
  hr.bind hf

lemma map {f : α → β} (hr : Reads r bs a) (hb : f a = b) : Reads (f <$> r) bs b := by
  intro rest
  rw [StateT.run_map, hr, ← hb]
  rfl

/-- Two values whose bytes start the same stream are equal, and so are the remainders. -/
lemma unique {a b : α} (ha : Reads r bs a) (hb : Reads r cs b) {bs' cs' : Bytes}
    (h : bs ++ bs' = cs ++ cs') : a = b ∧ bs' = cs' := by
  have := (ha bs').symm.trans ((congrArg r.run h).trans (hb cs'))
  simpa using this

lemma det {a b : α} (ha : Reads r bs a) (hb : Reads r bs b) : a = b :=
  (ha.unique hb (rfl : bs ++ [] = bs ++ [])).1

/-- A reader that starts with one that is known to read. -/
lemma run_bind (hr : Reads r bs a) (f : α → Reader β) (rest : Bytes) :
    (r >>= f).run (bs ++ rest) = (f a).run rest := by
  rw [StateT.run_bind, hr]
  rfl

end Reads

/-- The reader can give `a` back from the bytes `bs` only by consuming exactly them. -/
def InStep (r : Reader α) (bs : Bytes) (a : α) : Prop :=
  ∀ rest rem, r.run (bs ++ rest) = some (a, rem) → Reads r bs a

/-- The reader can give nothing back from the bytes `bs` but `a`; it may fail. -/
def Recovers (r : Reader α) (bs : Bytes) (a : α) : Prop :=
  ∀ rest b rem, r.run (bs ++ rest) = some (b, rem) → b = a ∧ rem = rest

lemma Reads.recovers (h : Reads r bs a) : Recovers r bs a := by
  intro rest b rem hrun
  rw [h rest, Option.some.injEq, Prod.mk.injEq] at hrun
  exact ⟨hrun.1.symm, hrun.2.symm⟩

namespace Recovers

lemma bind (hr : Recovers r bs a) (hf : Recovers (f a) cs b) : Recovers (r >>= f) (bs ++ cs) b := by
  intro rest c rem hrun
  rw [List.append_assoc] at hrun
  obtain ⟨a', rem', hfirst, hrun⟩ := run_bind_eq_some.mp hrun
  obtain ⟨rfl, rfl⟩ := hr _ _ _ hfirst
  exact hf rest c rem hrun

lemma bind_nil (hr : Recovers r bs a) (hf : Recovers (f a) [] b) : Recovers (r >>= f) bs b :=
  List.append_nil bs ▸ hr.bind hf

lemma nil_bind (hr : Recovers r [] a) (hf : Recovers (f a) bs b) : Recovers (r >>= f) bs b :=
  hr.bind hf

lemma pure (a : α) : Recovers (Pure.pure a) [] a := (Reads.pure a).recovers

end Recovers

/-- The bytes of a value in `P` show where the value ends: two of them that start the same stream
are those of one value. -/
def Delimits (write : α → Bytes) (P : α → Prop) : Prop :=
  ∀ ⦃a b : α⦄, P a → P b → ∀ ⦃x y : Bytes⦄, write a ++ x = write b ++ y → a = b ∧ x = y

/-- What a reader can take off a stream delimits itself. -/
lemma Reads.delimits (h : ∀ a, P a → Reads r (write a) a) : Delimits write P :=
  fun a b ha hb _ _ heq => (h a ha).unique (h b hb) heq

/-- Equally many values, one after the other. -/
lemma Delimits.flatMap (h : Delimits write P) {xs ys : List α}
    (hlen : xs.length = ys.length) (hxs : ∀ a ∈ xs, P a) (hys : ∀ a ∈ ys, P a) {x y : Bytes}
    (heq : xs.flatMap write ++ x = ys.flatMap write ++ y) : xs = ys ∧ x = y := by
  induction xs generalizing ys with
  | nil =>
    obtain rfl : ys = [] := List.length_eq_zero_iff.mp hlen.symm
    exact ⟨rfl, heq⟩
  | cons a xs ih =>
    obtain ⟨b, ys, rfl⟩ := List.exists_cons_of_length_eq_add_one hlen.symm
    simp only [List.flatMap_cons, List.append_assoc] at heq
    obtain ⟨rfl, htail⟩ := h (hxs a (by simp)) (hys b (by simp)) heq
    obtain ⟨rfl, rfl⟩ := ih (by simpa using hlen) (fun c hc => hxs c (by simp [hc]))
      (fun c hc => hys c (by simp [hc])) htail
    exact ⟨rfl, rfl⟩

/-! ## Single bytes and blocks of bytes -/

def ensure (ok : Bool) : Reader Unit :=
  if ok then pure () else failure

lemma ensure_reads {ok : Bool} (h : ok = true) : Reads (ensure ok) [] () := by
  subst h
  exact Reads.pure ()

lemma ensure_recovers (ok : Bool) : Recovers (ensure ok) [] () := by
  intro rest b rem hrun
  cases ok with
  | true => exact (ensure_reads rfl).recovers rest b rem hrun
  | false => cases hrun

def readByte : Reader UInt8
  | [] => none
  | b :: rest => some (b, rest)

lemma readByte_reads (b : UInt8) : Reads readByte [b] b := by
  intro rest
  rfl

def readBytes (n : Nat) : Reader Bytes := fun bs =>
  if n ≤ bs.length then some (bs.take n, bs.drop n) else none

variable {n : Nat}

lemma readBytes_reads (h : bs.length = n) : Reads (readBytes n) bs bs := by
  intro rest
  subst h
  simp [readBytes, StateT.run]

variable {bytes : Bytes}

/-- What is left after reading is the end of what was there. -/
lemma readBytes_suffix {nSize : Nat} {data : Bytes}
    (h : (readBytes nSize).run bytes = some (data, rest)) : rest <:+ bytes := by
  simp only [readBytes, StateT.run, Option.ite_none_right_eq_some, Option.some.injEq,
    Prod.mk.injEq] at h
  exact h.2.2 ▸ List.drop_suffix _ _

def littleEndian : Nat → Nat → Bytes
  | 0, _ => []
  | k + 1, v => UInt8.ofNat (v % 256) :: littleEndian k (v / 256)

def fromLittleEndian : Bytes → Nat
  | [] => 0
  | b :: bs => b.toNat + 256 * fromLittleEndian bs

@[simp] lemma length_littleEndian (k v : Nat) : (littleEndian k v).length = k := by
  induction k generalizing v with
  | zero => rfl
  | succ k ih => simp [littleEndian, ih]

lemma fromLittleEndian_littleEndian (k v : Nat) :
    fromLittleEndian (littleEndian k v) = v % 256 ^ k := by
  induction k generalizing v with
  | zero => simp [littleEndian, fromLittleEndian, Nat.mod_one]
  | succ k ih =>
    have hb : (UInt8.ofNat (v % 256)).toNat = v % 256 := by simp
    rw [littleEndian, fromLittleEndian, ih, hb, Nat.pow_succ', Nat.mod_mul]

def readLittleEndian (k : Nat) : Reader Nat :=
  fromLittleEndian <$> readBytes k

variable {k : Nat} {f : β → α}

lemma readLittleEndian_reads {v : Nat} (h : v < 256 ^ k) :
    Reads (readLittleEndian k) (littleEndian k v) v := by
  refine (readBytes_reads (length_littleEndian k v)).map ?_
  rw [fromLittleEndian_littleEndian, Nat.mod_eq_of_lt h]

lemma readLittleEndian_suffix (h : (readLittleEndian k).run bytes = some (n, rest)) :
    rest <:+ bytes := by
  simp only [readLittleEndian, StateT.run_map, Option.map_eq_map,
    Option.map_eq_some_iff, Prod.mk.injEq] at h
  obtain ⟨⟨data, rest'⟩, hread, -, rfl⟩ := h
  exact readBytes_suffix hread

/-! ## Sequences -/

def readMany (r : Reader α) : Nat → Reader (List α)
  | 0 => pure []
  | n + 1 => do
    let a ← r
    let as ← readMany r n
    pure (a :: as)

/-- Values written one after the other are read back as what each of them is read back as. -/
lemma readMany_reads {write : β → Bytes} (xs : List β) (h : ∀ x ∈ xs, Reads r (write x) (f x)) :
    Reads (readMany r xs.length) (xs.flatMap write) (xs.map f) := by
  induction xs with
  | nil => exact Reads.pure []
  | cons x xs ih =>
    have hxs := ih fun y hy => h y (by simp [hy])
    exact (h x (by simp)).bind
      (f := fun a => readMany r xs.length >>= fun as => Pure.pure (a :: as))
      (hxs.bind_nil (Reads.pure _))

lemma readMany_recovers {write : β → Bytes} (xs : List β)
    (h : ∀ x ∈ xs, Recovers r (write x) (f x)) :
    Recovers (readMany r xs.length) (xs.flatMap write) (xs.map f) := by
  induction xs with
  | nil => exact Recovers.pure []
  | cons x xs ih =>
    have hxs := ih fun y hy => h y (by simp [hy])
    exact (h x (by simp)).bind
      (f := fun a => readMany r xs.length >>= fun as => Pure.pure (a :: as))
      (hxs.bind_nil (Recovers.pure _))

/-- A sequence that is given back was read value by value. -/
lemma reads_of_readMany {xs : List α} (h : ∀ x ∈ xs, InStep r (write x) x)
    (hrun : (readMany r xs.length).run (xs.flatMap write ++ rest) = some (xs, rem)) :
    ∀ x ∈ xs, Reads r (write x) x := by
  induction xs with
  | nil => simp
  | cons x xs ih =>
    rw [List.flatMap_cons, List.append_assoc] at hrun
    simp only [List.length_cons, readMany, run_bind_eq_some, run_pure_eq_some, List.cons.injEq]
      at hrun
    obtain ⟨a, rem₁, hfirst, as, rem₂, hrest, ⟨rfl, rfl⟩, rfl⟩ := hrun
    have hread := h a (by simp) _ _ hfirst
    obtain rfl : as.flatMap write ++ rest = rem₁ := by
      simpa [hread (as.flatMap write ++ rest)] using hfirst
    simpa using ⟨hread, ih (fun y hy => h y (by simp [hy])) hrest⟩

end Jumpcoin.Codec

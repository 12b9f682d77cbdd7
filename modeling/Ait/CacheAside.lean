import Ait.FiniteMap

/-!
# Caches filled beside a versioned store

A store is written one version at a time. A cache entry is filled by a reader
some steps after the reader queried the store, and is dropped by an invalidation
that a writer performs some steps after it wrote. `performed` lists the
invalidations performed so far, each with the version its writer produced.

An entry is `Witnessed` when the store gave that answer at a version no older
than any performed invalidation that drops the entry. Writes, invalidations and
lost entries keep entries witnessed; a fill does exactly when it is not
overtaken, that is when `UpToDate` holds of the version the filler read.
-/

namespace Ait

/-- Every version a store went through; versions past the newest are meaningless. -/
structure History (D : Type) where
  version : ℕ
  past : ℕ → D

namespace History

variable {D : Type}

def start (d : D) : History D := ⟨0,fun _ => d⟩

def current (h : History D) : D := h.past h.version

def write (h : History D) (d : D) : History D :=
  ⟨h.version+1,Function.update h.past (h.version+1) d⟩

@[simp] theorem start_current (d : D) : (start d).current = d := rfl

@[simp] theorem start_version (d : D) : (start d).version = 0 := rfl

@[simp] theorem write_current (h : History D) (d : D) : (h.write d).current = d := by
  simp [current,write]

@[simp] theorem write_version (h : History D) (d : D) : (h.write d).version = h.version+1 := rfl

@[simp] theorem write_past_of_le {h : History D} {n : ℕ} (hn : n ≤ h.version) (d : D) :
    (h.write d).past n = h.past n := by
  have hne : n ≠ h.version+1 := by omega
  simp [write,hne]

/-- An answer of one version is still given later, or some version in between broke it. -/
theorem persists {h : History D} (answer : D → Prop) (broken : ℕ → Prop) {n m : ℕ}
    (hn : answer (h.past n)) (hnm : n ≤ m)
    (hstep : ∀ v, n ≤ v → v < m → answer (h.past v) → answer (h.past (v+1)) ∨ broken (v+1)) :
    answer (h.past m) ∨ ∃ v, n < v ∧ v ≤ m ∧ broken v := by
  induction m, hnm using Nat.le_induction with
  | base => exact .inl hn
  | succ m hnm ih =>
    rcases ih fun v hv hvm => hstep v hv (by omega) with hm | ⟨v,hnv,hvm,hv⟩
    · rcases hstep m hnm (Nat.lt_succ_self m) hm with hsame | hbroken
      · exact .inl hsame
      · exact .inr ⟨m+1,by omega,le_rfl,hbroken⟩
    · exact .inr ⟨v,hnv,by omega,hv⟩

/-- When each listed version is no newer than `n` or gives the answer too, one version
gives it that is as new as all of them. -/
theorem exists_latest {h : History D} (answer : D → Prop) {n : ℕ} (hn : answer (h.past n))
    (hle : n ≤ h.version) {vs : List ℕ}
    (hvs : ∀ v ∈ vs, v ≤ n ∨ v ≤ h.version ∧ answer (h.past v)) :
    ∃ m, m ≤ h.version ∧ answer (h.past m) ∧ n ≤ m ∧ ∀ v ∈ vs, v ≤ m := by
  induction vs with
  | nil => exact ⟨n,hle,hn,le_rfl,by simp⟩
  | cons v vs ih =>
    obtain ⟨m,hm,ha,hnm,hall⟩ := ih fun u hu => hvs u (List.mem_cons_of_mem v hu)
    by_cases hvm : v ≤ m
    · exact ⟨m,hm,ha,hnm,by simpa [hvm] using hall⟩
    · rcases hvs v List.mem_cons_self with hvn | ⟨hv,hav⟩
      · omega
      · refine ⟨v,hv,hav,by omega,?_⟩
        intro u hu
        rcases List.mem_cons.mp hu with rfl | hu
        · exact le_rfl
        · have hum := hall u hu
          omega

end History

namespace CacheAside

variable {D I : Type}

/-- No performed invalidation that drops the entry was made by a write newer than `n`. -/
def UpToDate (performed : List (I × ℕ)) (drops : I → Bool) (n : ℕ) : Prop :=
  ∀ e ∈ performed, drops e.1 = true → e.2 ≤ n

instance (performed : List (I × ℕ)) (drops : I → Bool) (n : ℕ) :
    Decidable (UpToDate performed drops n) :=
  inferInstanceAs (Decidable (∀ e ∈ performed, _))

/-- The store gave this answer at version `n`, and no performed drop outdates it. -/
def WitnessedAt (h : History D) (performed : List (I × ℕ)) (drops : I → Bool) (answer : D → Prop)
    (n : ℕ) : Prop :=
  n ≤ h.version ∧ answer (h.past n) ∧ UpToDate performed drops n

def Witnessed (h : History D) (performed : List (I × ℕ)) (drops : I → Bool)
    (answer : D → Prop) : Prop :=
  ∃ n, WitnessedAt h performed drops answer n

variable {h : History D} {performed : List (I × ℕ)} {drops : I → Bool} {answer : D → Prop} {n : ℕ}

theorem UpToDate.cons {v : ℕ} {i : I} (hn : UpToDate performed drops n) (hi : drops i = false) :
    UpToDate ((i,v)::performed) drops n := by
  intro e he hd
  rcases List.mem_cons.mp he with rfl | he
  · rw [hi] at hd
    cases hd
  · exact hn e he hd

theorem WitnessedAt.write (hw : WitnessedAt h performed drops answer n) (d : D) :
    WitnessedAt (h.write d) performed drops answer n := by
  obtain ⟨hn,ha,hu⟩ := hw
  refine ⟨?_,?_,hu⟩
  · rw [History.write_version]
    omega
  · rwa [History.write_past_of_le hn]

theorem WitnessedAt.perform (hw : WitnessedAt h performed drops answer n) {i : I} (v : ℕ)
    (hi : drops i = false) : WitnessedAt h ((i,v)::performed) drops answer n :=
  ⟨hw.1,hw.2.1,hw.2.2.cons hi⟩

theorem Witnessed.write (hw : Witnessed h performed drops answer) (d : D) :
    Witnessed (h.write d) performed drops answer :=
  hw.imp fun _ hn => hn.write d

theorem Witnessed.perform (hw : Witnessed h performed drops answer) {i : I} (v : ℕ)
    (hi : drops i = false) : Witnessed h ((i,v)::performed) drops answer :=
  hw.imp fun _ hn => hn.perform v hi

/-- When every write that ends the answer has performed a drop, the entry is current. -/
theorem Witnessed.current (hw : Witnessed h performed drops answer)
    (hstep : ∀ v < h.version, answer (h.past v) →
      answer (h.past (v+1)) ∨ ∃ i, drops i = true ∧ (i,v+1) ∈ performed) :
    answer h.current := by
  obtain ⟨n,hn,ha,hu⟩ := hw
  have hlater := History.persists answer (fun v => ∃ i, drops i = true ∧ (i,v) ∈ performed) ha hn
    fun v _ hv => hstep v hv
  rcases hlater with hnow | ⟨v,hnv,-,i,hd,hp⟩
  · exact hnow
  · have hvn := hu (i,v) hp hd
    omega

end CacheAside
end Ait

import Ait.Resolve
import Ait.RecentlyUsed

/-!
# The capped caches as least recently used

A lookup that hits moves the time of its entry, one that misses inserts an entry and evicts the
oldest. As long as every access has an instant of its own, the entries of a cache are
therefore the keys accessed last, and the oldest entry is the one that falls off.
-/

namespace Ait
open RecentlyUsed

inductive CacheAccess (V : Type)
  /-- A lookup; without a fresh entry the value is inserted. -/
  | read (key : String) (value : V) (order : String → ℕ) (now : Instant)
  /-- An insertion without a lookup. -/
  | fill (key : String) (value : V) (order : String → ℕ) (now : Instant)

namespace CacheAccess

variable {V : Type}

def key : CacheAccess V → String
  | .read key .. => key
  | .fill key .. => key

def now : CacheAccess V → Instant
  | .read _ _ _ now => now
  | .fill _ _ _ now => now

def order : CacheAccess V → String → ℕ
  | .read _ _ order _ => order
  | .fill _ _ order _ => order

def value : CacheAccess V → V
  | .read _ value .. => value
  | .fill _ value .. => value

def perform (maxEntries : ℕ) (m : FiniteMap String (V × Instant)) :
    CacheAccess V → FiniteMap String (V × Instant)
  | .read key value order now =>
    match freshEntry m key now with
    | (some _,m) => m
    | (none,m) => insertCapped Prod.snd order m key (value,now) maxEntries
  | .fill key value order now => insertCapped Prod.snd order m key (value,now) maxEntries

/-- A key that is held gets the time of the access, whether its entry was fresh or stale. -/
theorem perform_held {maxEntries : ℕ} {m : FiniteMap String (V × Instant)} (a : CacheAccess V)
    (hmax : maxEntries ≠ 0) (hheld : m.contains a.key = true) :
    ∃ v, a.perform maxEntries m = m.insert a.key (v,a.now) := by
  have hinsert : insertCapped Prod.snd a.order m a.key (a.value,a.now) maxEntries =
      m.insert a.key (a.value,a.now) := by
    rw [insertCapped,if_neg hmax,if_pos hheld]
  cases a with
  | fill key value order now => exact ⟨value,hinsert⟩
  | read key value order now =>
    simp only [perform,freshEntry]
    cases m.get key with
    | none => exact ⟨value,hinsert⟩
    | some entry =>
      rcases entry with ⟨v,stamp⟩
      by_cases hfresh : elapsed stamp now < cacheTtl
      · exact ⟨v,by simp only [hfresh,if_true]; rfl⟩
      · exact ⟨value,by simp only [hfresh,if_false]; exact hinsert⟩

theorem perform_new {maxEntries : ℕ} {m : FiniteMap String (V × Instant)} (a : CacheAccess V)
    (hnew : ¬m.contains a.key = true) :
    a.perform maxEntries m =
      insertCapped Prod.snd a.order m a.key (a.value,a.now) maxEntries := by
  cases a with
  | fill key value order now => rfl
  | read key value order now =>
    have hnone : m.get key = none := Option.not_isSome_iff_eq_none.mp hnew
    simp only [perform,freshEntry,hnone]
    rfl

end CacheAccess

/-- The entries that are held, the latest first, all from before `now`. -/
structure Represents {V : Type} (m : FiniteMap String (V × Instant)) (held : List String)
    (now : Instant) : Prop where
  keys : ∀ k, m.contains k = true ↔ k ∈ held
  nodup : held.Nodup
  past : ∀ k e, m.get k = some e → e.2 < now
  ordered : held.Pairwise fun a b => ∀ e f, m.get a = some e → m.get b = some f → f.2 < e.2

namespace Represents

variable {V : Type} {m : FiniteMap String (V × Instant)} {held : List String} {now later : Instant}

theorem empty (now : Instant) : Represents (.empty : FiniteMap String (V × Instant)) [] now where
  keys k := by simp [FiniteMap.contains]
  nodup := List.nodup_nil
  past k e h := by simp at h
  ordered := List.Pairwise.nil

theorem congr {m' : FiniteMap String (V × Instant)} (h : Represents m held now)
    (hget : ∀ k, m'.get k = m.get k) : Represents m' held now where
  keys k := by rw [FiniteMap.contains,hget]; exact h.keys k
  nodup := h.nodup
  past k e he := h.past k e (hget k ▸ he)
  ordered := h.ordered.imp fun hab e f he hf => hab e f (hget _ ▸ he) (hget _ ▸ hf)

theorem mono (h : Represents m held now) (hle : now ≤ later) : Represents m held later :=
  { h with past := fun k e he => (h.past k e he).trans_le hle }

theorem remove (h : Represents m held now) (k : String) :
    Represents (m.remove k) (held.erase k) now := by
  have hget {j : String} {e : V × Instant} (he : (m.remove k).get j = some e) :
      m.get j = some e := by
    rw [FiniteMap.get_remove] at he
    split at he
    · cases he
    · exact he
  constructor
  · intro j
    rw [FiniteMap.contains_remove,h.keys,h.nodup.mem_erase_iff]
  · exact h.nodup.erase k
  · exact fun j e he => h.past j e (hget he)
  · have hordered := h.ordered.sublist (List.erase_sublist (a := k))
    exact hordered.imp fun hab e f he hf => hab e f (hget he) (hget hf)

theorem insert (h : Represents m held now) {k : String} (hk : k ∉ held) (v : V)
    (hlater : now < later) : Represents (m.insert k (v,now)) (k::held) later := by
  constructor
  · intro j
    rw [FiniteMap.contains_insert,h.keys,List.mem_cons]
  · exact List.nodup_cons.mpr ⟨hk,h.nodup⟩
  · intro j e he
    rw [FiniteMap.get_insert] at he
    split at he
    · obtain rfl := Option.some.inj he
      exact hlater
    · exact (h.past j e he).trans hlater
  · have hother {j : String} (hj : j ∈ held) : (m.insert k (v,now)).get j = m.get j := by
      rw [FiniteMap.get_insert,if_neg]
      rintro rfl
      exact hk hj
    refine List.pairwise_cons.mpr ⟨?_,?_⟩
    · intro j hj e f he hf
      rw [FiniteMap.get_insert,if_pos rfl] at he
      obtain rfl := Option.some.inj he
      exact h.past j f (hother hj ▸ hf)
    · refine h.ordered.imp_of_mem ?_
      intro a b ha hb hab e f he hf
      exact hab e f (hother ha ▸ he) (hother hb ▸ hf)

theorem slide (h : Represents m held now) (k : String) (v : V) (hlater : now < later) :
    Represents (m.insert k (v,now)) (touch held k) later := by
  refine ((h.remove k).insert h.nodup.not_mem_erase v hlater).congr fun j => ?_
  by_cases hj : j = k
  · simp [hj]
  · simp [hj]

/-- The entry that is evicted is the last one held, wherever the iteration meets it. -/
theorem oldestKey_eq {last : String} (h : Represents m (held ++ [last]) now)
    (order : String → ℕ) : oldestKey Prod.snd order m = some last := by
  have hentry {k : String} (hk : k ∈ held ++ [last]) : ∃ e, m.get k = some e :=
    Option.isSome_iff_exists.mp ((h.keys k).mpr hk)
  obtain ⟨e,he⟩ := hentry (List.mem_append_right held List.mem_cons_self)
  have hmem := FiniteMap.mem_toList.mpr he
  unfold oldestKey
  cases hmin : m.toList.argmin fun e => toLex (e.2.2,order e.1) with
  | none => simp [List.argmin_eq_none.mp hmin] at hmem
  | some first =>
    rcases first with ⟨k,f⟩
    have hf := FiniteMap.mem_toList.mp (List.argmin_mem hmin)
    have hle : f.2 ≤ e.2 := by
      have hlex := List.le_of_mem_argmin hmem hmin
      rcases Prod.Lex.toLex_le_toLex.mp hlex with hlt | ⟨heq,-⟩
      · exact hlt.le
      · exact heq.le
    have hk : k ∈ held ++ [last] := (h.keys k).mp (Option.isSome_iff_exists.mpr ⟨f,hf⟩)
    rcases List.mem_append.mp hk with hk | hk
    · have hlt := (List.pairwise_append.mp h.ordered).2.2 k hk last List.mem_cons_self f e hf he
      exact absurd hle hlt.not_ge
    · rw [List.mem_singleton.mp hk]
      rfl

theorem len_eq (h : Represents m held now) : m.len = held.length :=
  FiniteMap.len_eq_length h.nodup h.keys

theorem access (h : Represents m held now) {n : ℕ} (hlen : held.length ≤ n) (a : CacheAccess V)
    (hnow : a.now = now) (hlater : now < later) :
    Represents (a.perform n m) (use n held a.key) later := by
  subst hnow
  by_cases hk : a.key ∈ held
  · have hpos := List.length_pos_of_mem hk
    obtain ⟨v,hv⟩ := a.perform_held (by omega : n ≠ 0) ((h.keys a.key).mpr hk)
    rw [hv,use_of_mem hlen hk]
    exact h.slide a.key v hlater
  · have hnew : ¬m.contains a.key = true := fun hheld => hk ((h.keys a.key).mp hheld)
    rw [a.perform_new hnew,insertCapped,if_neg hnew,h.len_eq]
    rcases hlen.lt_or_eq with hroom | hfull
    · rw [if_neg (by omega),if_neg (by omega),use_room hroom hk]
      exact h.insert hk a.value hlater
    · obtain rfl | ⟨front,last,rfl⟩ := List.eq_nil_or_concat held
      · subst hfull
        exact h.mono hlater.le
      · rw [List.concat_eq_append] at h hk hfull ⊢
        have hpos : n ≠ 0 := by
          rw [← hfull,List.length_append,List.length_singleton]
          omega
        have herase : (front ++ [last]).erase last = front := by
          have hlast : last ∉ front := fun hmem =>
            (List.nodup_append.mp h.nodup).2.2 last hmem last List.mem_cons_self rfl
          rw [List.erase_append_right _ hlast,List.erase_cons_head,List.append_nil]
        have hrest := h.remove last
        rw [herase] at hrest
        rw [if_neg hpos,if_pos hfull.ge,h.oldestKey_eq,use_full hfull hk]
        exact hrest.insert (fun hmem => hk (List.mem_append_left _ hmem)) a.value hlater

end Represents

/-- The cache holds the keys used last, `n` of them where there are as many. -/
structure ExactLru {V : Type} (m : FiniteMap String (V × Instant)) (n : ℕ)
    (history : List String) : Prop where
  keys : ∀ k, m.contains k = true ↔ k ∈ (recent history).take n
  size : m.len = min n history.dedup.length

theorem represents_run {V : Type} (n : ℕ) (accesses : List (CacheAccess V)) {now : Instant}
    (horder : accesses.Pairwise fun a b => a.now < b.now) (hnow : ∀ a ∈ accesses, a.now < now) :
    Represents (accesses.foldl (CacheAccess.perform n) .empty)
      ((recent (accesses.map CacheAccess.key)).take n) now := by
  induction accesses using List.reverseRecOn generalizing now with
  | nil => simpa [recent] using Represents.empty now
  | append_singleton accesses a ih =>
    obtain ⟨hbefore,-,hlast⟩ := List.pairwise_append.mp horder
    have hheld := ih hbefore fun b hb => hlast b hb a List.mem_cons_self
    have hlater : a.now < now := hnow a (List.mem_append_right _ List.mem_cons_self)
    rw [List.foldl_append,List.map_append,List.map_singleton,← use_recent]
    exact hheld.access (List.length_take_le _ _) a rfl hlater

theorem exactLru_run {V : Type} (n : ℕ) (accesses : List (CacheAccess V))
    (horder : accesses.Pairwise fun a b => a.now < b.now) :
    ExactLru (accesses.foldl (CacheAccess.perform n) .empty) n
      (accesses.map CacheAccess.key) := by
  have hbound : ∃ now, ∀ a ∈ accesses, a.now < now := by
    refine ⟨(accesses.map CacheAccess.now).sum+1,fun a ha => ?_⟩
    exact Nat.lt_succ_of_le (List.single_le_sum (by simp) _ (List.mem_map_of_mem ha))
  obtain ⟨now,hnow⟩ := hbound
  have h := represents_run n accesses horder hnow
  refine ⟨h.keys,?_⟩
  rw [h.len_eq,List.length_take,length_recent]

/-- What a request does to find its route, at an instant of its own. -/
inductive RouteAccess
  | resolve (modelName : String) (order : IterationOrder) (now : Instant)
  | upstream (provider : Provider) (order : IterationOrder) (now : Instant)

namespace RouteAccess

def now : RouteAccess → Instant
  | .resolve _ _ now => now
  | .upstream _ _ now => now

def perform (s : AppState) : RouteAccess → AppState
  | .resolve modelName order now => (resolveModelAndProvider s modelName order now).2
  | .upstream provider order now => (cachedUpstream s provider order now).2

def modelAccess (s : AppState) : RouteAccess → Option (CacheAccess (Model × Provider))
  | .resolve modelName order now =>
    if s.knownUnknown modelName now then none
    else ((s.cachedModel modelName now).1.or (s.db.resolveModel modelName)).map fun route =>
      .read modelName route order.models now
  | .upstream .. => none

/-- The access to the provider cache: resolution fills it when the model was not cached. -/
def providerAccess (s : AppState) : RouteAccess → Option (CacheAccess UpstreamProvider)
  | .resolve modelName order now =>
    if s.knownUnknown modelName now ∨ (s.cachedModel modelName now).1.isSome then none
    else (s.db.resolveModel modelName).map fun route =>
      .fill route.2.id (createProvider route.2 s.httpClient) order.providers now
  | .upstream provider order now =>
    some (.read provider.id (createProvider provider s.httpClient) order.providers now)

def modelAccesses (s : AppState) : List RouteAccess → List (CacheAccess (Model × Provider))
  | [] => []
  | a::rest => (a.modelAccess s).toList ++ modelAccesses (a.perform s) rest

def providerAccesses (s : AppState) : List RouteAccess → List (CacheAccess UpstreamProvider)
  | [] => []
  | a::rest => (a.providerAccess s).toList ++ providerAccesses (a.perform s) rest

@[simp] theorem perform_maxEntries (s : AppState) (a : RouteAccess) :
    (a.perform s).config.cacheMaxEntries = s.config.cacheMaxEntries := by
  cases a with
  | resolve modelName order now =>
    obtain ⟨_,_,_,h⟩ := resolveModelAndProvider_frame s modelName order now
    simp only [perform,h]
  | upstream provider order now =>
    obtain ⟨_,h⟩ := cachedUpstream_frame s provider order now
    simp only [perform,h]

/-- What an operation does to either cache is the access it makes there, if any. -/
theorem perform_caches (s : AppState) (a : RouteAccess) :
    (a.perform s).modelCache = (a.modelAccess s).toList.foldl
        (CacheAccess.perform s.config.cacheMaxEntries) s.modelCache ∧
      (a.perform s).providerCache = (a.providerAccess s).toList.foldl
        (CacheAccess.perform s.config.cacheMaxEntries) s.providerCache := by
  cases a with
  | resolve modelName order now =>
    cases hknown : s.knownUnknown modelName now with
    | true => simp [perform,modelAccess,providerAccess,hknown]
    | false =>
      cases hfresh : (freshEntry s.modelCache modelName now).1 with
      | some route =>
        have hslid : freshEntry s.modelCache modelName now =
            (some route,(freshEntry s.modelCache modelName now).2) := Prod.ext hfresh rfl
        have haccess : (CacheAccess.read modelName route order.models now).perform
            s.config.cacheMaxEntries s.modelCache =
              (freshEntry s.modelCache modelName now).2 := by
          rw [CacheAccess.perform,hslid]
        simp [perform,modelAccess,providerAccess,resolve_hit hknown hfresh,hknown,
          AppState.cachedModel,hfresh,haccess]
      | none =>
        cases hdb : s.db.resolveModel modelName with
        | none =>
          simp [perform,modelAccess,providerAccess,resolve_unknown hknown hfresh hdb,hknown,
            AppState.cachedModel,hfresh,hdb,AppState.rememberUnknown]
        | some route =>
          simp [perform,modelAccess,providerAccess,resolve_read hknown hfresh hdb,hknown,
            AppState.cachedModel,hdb,AppState.rememberModel,AppState.rememberUpstream,
            CacheAccess.perform,freshEntry_miss hfresh]
  | upstream provider order now =>
    constructor
    · obtain ⟨_,h⟩ := cachedUpstream_frame s provider order now
      simp [perform,modelAccess,h]
    · cases hfresh : (freshEntry s.providerCache provider.id now).1 with
      | some upstream =>
        have hslid : freshEntry s.providerCache provider.id now =
            (some upstream,(freshEntry s.providerCache provider.id now).2) := Prod.ext hfresh rfl
        simp only [perform,upstream_hit hfresh,providerAccess,Option.toList_some,
          List.foldl_cons,List.foldl_nil,CacheAccess.perform]
        rw [hslid]
      | none =>
        simp [perform,providerAccess,AppState.rememberUpstream,CacheAccess.perform,
          freshEntry_miss hfresh]

theorem run_caches (s : AppState) (ops : List RouteAccess) :
    (ops.foldl perform s).modelCache = (modelAccesses s ops).foldl
        (CacheAccess.perform s.config.cacheMaxEntries) s.modelCache ∧
      (ops.foldl perform s).providerCache = (providerAccesses s ops).foldl
        (CacheAccess.perform s.config.cacheMaxEntries) s.providerCache := by
  induction ops generalizing s with
  | nil => exact ⟨rfl,rfl⟩
  | cons a ops ih =>
    obtain ⟨hmodels,hproviders⟩ := a.perform_caches s
    obtain ⟨hm,hp⟩ := ih (a.perform s)
    rw [perform_maxEntries,hmodels] at hm
    rw [perform_maxEntries,hproviders] at hp
    constructor
    · rw [List.foldl_cons,hm,modelAccesses,List.foldl_append]
    · rw [List.foldl_cons,hp,providerAccesses,List.foldl_append]

theorem accesses_sublist (s : AppState) (ops : List RouteAccess) :
    ((modelAccesses s ops).map CacheAccess.now).Sublist (ops.map now) ∧
      ((providerAccesses s ops).map CacheAccess.now).Sublist (ops.map now) := by
  have hone {V : Type} {access : Option (CacheAccess V)} {t : Instant}
      (h : ∀ x ∈ access, x.now = t) : (access.toList.map CacheAccess.now).Sublist [t] := by
    cases access with
    | none => simp
    | some x => simp [h x rfl]
  induction ops generalizing s with
  | nil => exact ⟨.refl _,.refl _⟩
  | cons a ops ih =>
    obtain ⟨hmodels,hproviders⟩ := ih (a.perform s)
    have hm : ∀ x ∈ a.modelAccess s, x.now = a.now := by
      intro x hx
      cases a with
      | resolve modelName order now =>
        simp only [modelAccess] at hx
        split at hx
        · cases hx
        · obtain ⟨route,-,rfl⟩ := Option.map_eq_some_iff.mp hx
          rfl
      | upstream provider order now => cases hx
    have hp : ∀ x ∈ a.providerAccess s, x.now = a.now := by
      intro x hx
      cases a with
      | resolve modelName order now =>
        simp only [providerAccess] at hx
        split at hx
        · cases hx
        · obtain ⟨route,-,rfl⟩ := Option.map_eq_some_iff.mp hx
          rfl
      | upstream provider order now =>
        obtain rfl := Option.some.inj hx
        rfl
    constructor
    · rw [modelAccesses,List.map_append]
      exact (hone hm).append hmodels
    · rw [providerAccesses,List.map_append]
      exact (hone hp).append hproviders

end RouteAccess

open RouteAccess

/-- A capped cache is an exact LRU of its accesses, and so are the model cache and the provider
cache of a server whose requests all come at instants of their own. -/
theorem capped_cache_is_lru :
    (∀ (V : Type) (n : ℕ) (accesses : List (CacheAccess V)),
      (accesses.Pairwise fun a b => a.now < b.now) →
        ExactLru (accesses.foldl (CacheAccess.perform n) .empty) n
          (accesses.map CacheAccess.key)) ∧
    ∀ (s : AppState) (ops : List RouteAccess), s.modelCache = .empty → s.providerCache = .empty →
      (ops.Pairwise fun a b => a.now < b.now) →
        ExactLru (ops.foldl perform s).modelCache s.config.cacheMaxEntries
            ((modelAccesses s ops).map CacheAccess.key) ∧
          ExactLru (ops.foldl perform s).providerCache s.config.cacheMaxEntries
            ((providerAccesses s ops).map CacheAccess.key) := by
  refine ⟨fun _ => exactLru_run,?_⟩
  intro s ops hmodel hprovider horder
  obtain ⟨hm,hp⟩ := run_caches s ops
  obtain ⟨hms,hps⟩ := accesses_sublist s ops
  have hnows : (ops.map now).Pairwise (· < ·) := List.pairwise_map.mpr horder
  constructor
  · rw [hm,hmodel]
    exact exactLru_run _ _ (List.pairwise_map.mp (hnows.sublist hms))
  · rw [hp,hprovider]
    exact exactLru_run _ _ (List.pairwise_map.mp (hnows.sublist hps))

/-- Two entries fit; the hit on `a` lets `b` fall off, and the stale `a` is inserted anew. A server
whose caches hold one entry keeps the second of two providers. -/
theorem capped_cache_is_lru_slid :
    let read (key : String) (now : Instant) : CacheAccess Unit := .read key () (fun _ => 0) now
    let accesses := [read "a" 1,read "b" 2,read "a" 3,read "c" 4,read "a" (4+cacheTtl)]
    let config : ConfigApp :=
      { authEnabled := true,cacheMaxEntries := 1,connectTimeoutSecs := 5,ssrfAllowedCidrs := [] }
    let order : IterationOrder := ⟨fun _ => 0,fun _ => 0,fun _ => 0⟩
    let provider (id : String) : Provider := ⟨id,id,.openAICompat,"http://ai/v1",none,true,0,0⟩
    let ops := [RouteAccess.upstream (provider "p1") order 1,.upstream (provider "p2") order 2]
    ExactLru (accesses.foldl (CacheAccess.perform 2) .empty) 2 ["a","b","a","c","a"] ∧
      (recent ["a","b","a","c","a"]).take 2 = ["a","c"] ∧
      ExactLru (ops.foldl perform (.new config ⟨⟨[],[],[]⟩,by decide⟩)).providerCache 1
        ["p1","p2"] := by
  intro read accesses config order provider ops
  obtain ⟨hcache,hserver⟩ := capped_cache_is_lru
  have hproviders := (hserver (.new config ⟨⟨[],[],[]⟩,by decide⟩) ops rfl rfl (by decide)).2
  exact ⟨hcache Unit 2 accesses (by decide),by decide,hproviders⟩

end Ait

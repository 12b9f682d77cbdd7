import Ait.LogQuery

/-!
# Reading the proxy log page by page

Each page is a query of its own, sorted by the timestamp alone. Rows of one timestamp may
come in another order in the next query, so a page that ends between two of them can show
one twice and the other not at all.
-/

namespace Ait
open Grouping

def itemsOf : Option (Except AitError PaginatedResponse) → List ProxyLogEntryResponse
  | some (.ok resp) => resp.items
  | some (.error _) => []
  | none => []

/-- `ceil(total / per_page)`. -/
def ProxyLogQuery.pageCount (q : ProxyLogQuery) (table : List ProxyLogRow) : ℕ :=
  ((q.filter.select table).length+q.servedPerPage-1)/q.servedPerPage

/-- The pages 1, 2 and so on, each answered by a query that meets the rows in its own order. -/
def walk (scans : ℕ → Scan ProxyLogRow) (table : List ProxyLogRow) (q : ProxyLogQuery) :
    List ProxyLogEntryResponse :=
  (List.range (q.pageCount table)).flatMap fun k =>
    itemsOf (listProxyLogs (scans k) table { q with page := some (k+1) })

instance : Std.Total newestFirst := ⟨fun r r' => le_total r'.timestamp r.timestamp⟩

instance : IsTrans ProxyLogRow newestFirst := ⟨fun _ _ _ hxy hyz => le_trans hyz hxy⟩

theorem orderBy_sorted (scan : Scan ProxyLogRow) (rows : List ProxyLogRow) :
    Paging.Sorted ProxyLogRow.timestamp rows (scan.orderBy newestFirst rows) :=
  ⟨scan.orderBy_perm newestFirst rows,scan.orderBy_pairwise newestFirst rows⟩

section Walk

variable {table : List ProxyLogRow} {q : ProxyLogQuery}

theorem mul_lt_of_lt_pageCount {k : ℕ} (h : k < q.pageCount table) :
    k*q.servedPerPage < (q.filter.select table).length := by
  have hlow := q.servedPerPage_bounds.1
  rw [ProxyLogQuery.pageCount,Nat.lt_div_iff_mul_lt (by omega)] at h
  omega

theorem length_le_pageCount_mul :
    (q.filter.select table).length ≤ q.pageCount table*q.servedPerPage := by
  have hlow := q.servedPerPage_bounds.1
  have hceil := Nat.lt_div_mul_add
    (a := (q.filter.select table).length+q.servedPerPage-1) (by omega : 0 < q.servedPerPage)
  rw [ProxyLogQuery.pageCount]
  omega

theorem walk_eq (scans : ℕ → Scan ProxyLogRow) (hstart : isInvalidTs q.filter.startTs = false)
    (hend : isInvalidTs q.filter.endTs = false)
    (htotal : (q.filter.select table).length < maxOffsetRows) :
    walk scans table q = (Paging.pages q.servedPerPage (q.pageCount table) fun k =>
      (scans k).orderBy newestFirst (q.filter.select table)).map ProxyLogRow.entry := by
  rw [walk,Paging.pages,List.map_flatMap]
  refine List.flatMap_congr fun k hk => ?_
  have hskip := mul_lt_of_lt_pageCount (List.mem_range.mp hk)
  obtain ⟨served,hpage,-,hcap,hreach⟩ :=
    ProxyLogQuery.servedPage_eq { q with page := some (k+1) }
  have hasked : ProxyLogQuery.requestedPage { q with page := some (k+1) } = k+1 :=
    max_eq_left (Nat.le_add_left _ _)
  have hserved : served = k+1 := by
    rw [← hasked]
    refine hreach ?_
    rw [hasked,Nat.add_sub_cancel]
    exact (hskip.trans htotal).le
  have hrows : (q.filter.select table).length < 2^63 := by
    rw [maxOffsetRows] at htotal
    omega
  rw [listProxyLogs_answers hpage hcap hstart hend hrows,hserved]
  rfl

/-- The pages are the matching rows, in whatever order queries meet them, when no page ends
between two rows of one timestamp that look different. -/
theorem walk_partitions_iff (hstart : isInvalidTs q.filter.startTs = false)
    (hend : isInvalidTs q.filter.endTs = false)
    (htotal : (q.filter.select table).length < maxOffsetRows) :
    (∀ scans, (walk scans table q).Perm ((q.filter.select table).map ProxyLogRow.entry)) ↔
      ∀ t k, Paging.Splits ProxyLogRow.timestamp (q.filter.select table) t (k*q.servedPerPage) →
        Paging.Alike ProxyLogRow.timestamp ProxyLogRow.entry (q.filter.select table) t := by
  rw [← Paging.pages_perm_iff length_le_pageCount_mul]
  constructor
  · intro hall s hs
    have hscans : (fun k => (Scan.toward (s k)).orderBy newestFirst (q.filter.select table)) = s :=
      funext fun k => Scan.orderBy_toward (hs k).perm (hs k).pairwise
    have hwalk := hall fun k => .toward (s k)
    rwa [walk_eq _ hstart hend htotal,hscans] at hwalk
  · intro hall scans
    rw [walk_eq scans hstart hend htotal]
    exact hall _ fun k => orderBy_sorted (scans k) _

end Walk

def everything (perPage : ℕ) : ProxyLogQuery where
  page := none
  perPage := some perPage
  filter := ⟨none,none,none,none,none,none,none,none,none,none,none⟩

theorem walk_partitions_distinct :
    let table := [sampleRow 0 (some 3),sampleRow 3600000000000 (some 4)]
    ∀ scans, (walk scans table (everything 1)).Perm (table.map ProxyLogRow.entry) := by
  intro table
  refine (@walk_partitions_iff table (everything 1) rfl rfl (by decide)).mpr ?_
  rintro t k ⟨hlow,hhigh⟩
  have hone : table.countP (fun r => r.timestamp = t) ≤ 1 := by
    by_cases h : t = (0 : ℤ)
    · subst h
      decide
    · have hfirst : table.countP (fun r => r.timestamp = t) =
          [sampleRow 3600000000000 (some 4)].countP (fun r => r.timestamp = t) :=
        List.countP_cons_of_neg fun heq => h (of_decide_eq_true heq).symm
      rw [hfirst]
      exact List.countP_le_length
  have hall : (everything 1).filter.select table = table := rfl
  rw [hall] at hlow hhigh
  omega

/-- Two rows of one timestamp, met in the opposite order by the second query. -/
theorem walk_repeats_row :
    let table := [sampleRow 0 (some 3),sampleRow 0 (some 4)]
    let scans : ℕ → Scan ProxyLogRow := fun k => if k = 0 then .stored else .toward table.reverse
    walk scans table (everything 1) =
        [(sampleRow 0 (some 3)).entry,(sampleRow 0 (some 3)).entry] ∧
      ¬(walk scans table (everything 1)).Perm (table.map ProxyLogRow.entry) := by
  decide +kernel

end Ait

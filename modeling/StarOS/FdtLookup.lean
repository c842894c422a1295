/-
What the parser of device trees finds in a tree that is laid out in a blob.

The walkers keep the path of the node they are in as a string: the name of a node is appended behind
a `/`, and at the end of the node everything from the last `/` on is cut off.  Below the root this
is the path of the node, its components joined by `/`; the root itself, whose name is empty, has the
empty path.  `read_property` and `get_all_properties` so find the properties of every node under its
path, but those of the root not under `/`, which is where all callers look for them.

* `StarOS.joinPath`, `StarOS.apiPath` — the paths of the walkers and of their callers;
* `StarOS.propsAt` — the properties that a walker meets under a path;
* `StarOS.FdtNode.propsAt_items` — in the items of a tree they are those of the nodes of the path;
* `StarOS.FdtParser.seek_returns` — a walk through the records of a tree meets just these;
* `StarOS.FdtParser.FindsNode` — a node is found with its properties;
* `StarOS.fdt_lookup_iff` — when a node is found;
* `StarOS.fdt_root_not_found` — a root whose properties are not found.
-/

import StarOS.FdtLayout
import Mathlib.Data.List.Nodup

set_option autoImplicit false

namespace StarOS

open Loops

/-! ### Paths -/

/-- The components of a path, joined by `/`. -/
def joinPath (cs : List Bytes) : Bytes := [slash].intercalate cs

/-- The path under which callers look for a node: `/` for the root, as in `get_model` and
`get_compatible`. -/
def apiPath : List Bytes → Bytes
  | [] => [slash]
  | c :: cs => joinPath (c :: cs)

variable {cs ds : List Bytes} {name path target : Bytes}

theorem joinPath_concat (h : cs ≠ []) (name : Bytes) :
    joinPath (cs ++ [name]) = joinPath cs ++ [slash] ++ name := by
  induction cs with
  | nil => exact absurd rfl h
  | cons c cs ih =>
      cases cs with
      | nil => simp [joinPath]
      | cons d cs =>
          have hrest := ih (List.cons_ne_nil d cs)
          rw [joinPath, List.cons_append] at hrest
          rw [joinPath, joinPath, List.cons_append, List.cons_append,
            List.intercalate_cons_cons, List.intercalate_cons_cons, hrest, joinPath]
          simp only [List.append_assoc]

theorem joinPath_ne_nil (h : cs ≠ []) (hne : ∀ c ∈ cs, c ≠ []) : joinPath cs ≠ [] := by
  obtain ⟨c, cs, rfl⟩ := List.exists_cons_of_ne_nil h
  intro hnil
  have hc := hne c List.mem_cons_self
  cases cs with
  | nil => exact hc (by simpa [joinPath] using hnil)
  | cons d cs =>
      rw [joinPath, List.intercalate_cons_cons] at hnil
      simp at hnil

/-- Paths of different components are different. -/
theorem joinPath_inj (hcs : ∀ c ∈ cs, c ≠ [] ∧ slash ∉ c) (hds : ∀ d ∈ ds, d ≠ [] ∧ slash ∉ d)
    (h : joinPath cs = joinPath ds) : cs = ds := by
  by_cases hc : cs = []
  · by_cases hd : ds = []
    · rw [hc, hd]
    · rw [hc] at h
      exact absurd h.symm (joinPath_ne_nil hd fun d hmem => (hds d hmem).1)
  · by_cases hd : ds = []
    · rw [hd] at h
      exact absurd h (joinPath_ne_nil hc fun c hmem => (hcs c hmem).1)
    · rw [joinPath, joinPath] at h
      rw [← List.splitOn_intercalate slash (fun c hmem => (hcs c hmem).2) hc, h,
        List.splitOn_intercalate slash (fun d hmem => (hds d hmem).2) hd]

/-- No path of components is `/`. -/
theorem joinPath_ne_slash (hcs : ∀ c ∈ cs, c ≠ [] ∧ slash ∉ c) : joinPath cs ≠ [slash] := by
  intro h
  by_cases hc : cs = []
  · rw [hc] at h
    exact absurd h (by decide)
  · have hsplit := List.splitOn_intercalate slash (fun c hmem => (hcs c hmem).2) hc
    rw [joinPath] at h
    rw [h] at hsplit
    have hempty : ([] : Bytes) ∈ cs := by
      rw [← hsplit]
      decide
    exact (hcs _ hempty).1 rfl

theorem findIdx?_reverse_of_notMem (h : slash ∉ name) :
    name.reverse.findIdx? (fun b => b == slash) = none := by
  rw [List.findIdx?_eq_none_iff]
  intro b hb
  rw [beq_eq_false_iff_ne]
  rintro rfl
  exact h (List.mem_reverse.1 hb)

theorem popName_append (h : slash ∉ name) : popName (path ++ [slash] ++ name) = path := by
  have hfind : (path ++ [slash] ++ name).reverse.findIdx? (fun b => b == slash) =
      some name.length := by
    rw [List.reverse_append, List.reverse_append, List.findIdx?_append,
      findIdx?_reverse_of_notMem h]
    simp [List.findIdx?_cons]
  rw [popName, rfindSlash, hfind]
  simp

theorem popName_of_notMem (h : slash ∉ name) : popName name = [] := by
  rw [popName, rfindSlash, findIdx?_reverse_of_notMem h]
  rfl

/-- At the beginning of a node the walkers go from the path of its parent to its own. -/
theorem pushName_joinPath (hcs : ∀ c ∈ cs, c ≠ []) (name : Bytes) :
    pushName (joinPath cs) (cs.length + 1) name = joinPath (cs ++ [name]) := by
  rw [pushName]
  by_cases hc : cs = []
  · rw [hc]
    simp [joinPath]
  · rw [if_pos ⟨joinPath_ne_nil hc hcs, Nat.succ_pos _⟩, joinPath_concat hc]

/-- At its end they go back. -/
theorem popName_joinPath (h : slash ∉ name) : popName (joinPath (cs ++ [name])) = joinPath cs := by
  by_cases hc : cs = []
  · rw [hc]
    simpa [joinPath] using popName_of_notMem h
  · rw [joinPath_concat hc, popName_append h]

/-! ### The properties under a path -/

/-- The properties that a walker meets under a path, from its own path and depth on, and with
whether it is in a node none of whose subnodes has begun. -/
def propsAt (target : Bytes) : Bytes → ℕ → Bool → List FdtItem → List FdtProp
  | _, _, _, [] => []
  | path, depth, _, .beginNode name :: is =>
      propsAt target (pushName path depth name) (depth + 1) true is
  | path, depth, inNode, .prop q :: is =>
      if inNode = true ∧ path = target then q :: propsAt target path depth inNode is
      else propsAt target path depth inNode is
  | path, depth, _, .endNode :: is =>
      if depth = 0 then [] else propsAt target (popName path) (depth - 1) false is

/-- The properties of a node, if its components are the path. -/
def propsOf (target : Bytes) (e : List Bytes × FdtNode) : List FdtProp :=
  if joinPath e.1 = target then e.2.props else []

theorem propsAt_props (depth : ℕ) (props : List FdtProp) (rest : List FdtItem) :
    propsAt target path depth true (props.map .prop ++ rest) =
      (if path = target then props else []) ++ propsAt target path depth true rest := by
  induction props with
  | nil => rw [List.map_nil, List.nil_append, ite_self, List.nil_append]
  | cons q props ih =>
      rw [List.map_cons, List.cons_append, propsAt, ih]
      by_cases hpath : path = target
      · rw [if_pos ⟨rfl, hpath⟩, if_pos hpath, if_pos hpath, List.cons_append]
      · rw [if_neg fun h => hpath h.2, if_neg hpath, if_neg hpath]

namespace FdtNode

/-- The components of a path can be told apart. -/
def Clear (cs : List Bytes) : Prop := ∀ c ∈ cs, c ≠ [] ∧ slash ∉ c

/-- From a node on its parent's path, a walker meets the properties of the nodes of the path below
it, and is back on the parent's path. -/
def Walked (target : Bytes) (n : FdtNode) : Prop :=
  ∀ (cs : List Bytes) (inNode : Bool) (rest : List FdtItem), (∀ e ∈ n.located cs, Clear e.1) →
    propsAt target (joinPath cs) (cs.length + 1) inNode (n.items ++ rest) =
      (n.located cs).flatMap (propsOf target) ++
        propsAt target (joinPath cs) (cs.length + 1) false rest

/-- The same for all subnodes of a node, up to its end. -/
theorem propsAt_itemsAll {l : List FdtNode} (h : ∀ c ∈ l, c.Walked target) (inNode : Bool)
    (rest : List FdtItem) (hclear : ∀ e ∈ locatedAll cs l, Clear e.1) :
    propsAt target (joinPath cs) (cs.length + 1) inNode (itemsAll l ++ .endNode :: rest) =
      (locatedAll cs l).flatMap (propsOf target) ++
        propsAt target (popName (joinPath cs)) cs.length false rest := by
  induction l generalizing inNode with
  | nil => rfl
  | cons c l ih =>
      rw [locatedAll] at hclear ⊢
      rw [itemsAll, List.append_assoc, List.flatMap_append, List.append_assoc,
        h c List.mem_cons_self cs inNode _ fun e he => hclear e (List.mem_append_left _ he),
        ih (fun c hc => h c (List.mem_cons_of_mem _ hc)) false
          fun e he => hclear e (List.mem_append_right _ he)]

theorem walked (n : FdtNode) : n.Walked target := by
  induction n using induct with
  | node name props children ih =>
      intro cs inNode rest hclear
      rw [located] at hclear ⊢
      have hcs : Clear (cs ++ [name]) := hclear _ List.mem_cons_self
      have hname := hcs name (List.mem_append_right _ List.mem_cons_self)
      have hlen : cs.length + 1 = (cs ++ [name]).length := by
        rw [List.length_append, List.length_singleton]
      rw [items, List.cons_append, propsAt,
        pushName_joinPath fun c hc => (hcs c (List.mem_append_left _ hc)).1,
        List.append_assoc, List.append_assoc, propsAt_props, hlen, List.singleton_append,
        propsAt_itemsAll ih _ _ fun e he => hclear e (List.mem_cons_of_mem _ he),
        popName_joinPath hname.2, List.flatMap_cons, List.append_assoc, propsOf]
      rfl

/-- In the items of a tree, a walker meets the properties of the nodes of the path. -/
theorem propsAt_items {root : FdtNode} (hroot : root.name = [])
    (hclear : ∀ e ∈ root.nodes, Clear e.1) :
    propsAt target [] 0 false root.items = root.nodes.flatMap (propsOf target) := by
  obtain ⟨name, props, children⟩ := root
  obtain rfl : name = [] := hroot
  have hbelow : propsAt target (joinPath []) 1 true (itemsAll children ++ [.endNode]) =
      (locatedAll [] children).flatMap (propsOf target) ++
        propsAt target (popName (joinPath [])) 0 false [] :=
    propsAt_itemsAll (fun c _ => c.walked) true [] fun e he =>
      hclear e (List.mem_cons_of_mem _ he)
  rw [nodes, List.flatMap_cons, items, propsAt, propsAt_props, propsOf]
  exact congrArg _ (hbelow.trans (List.append_nil _))

/-! ### The nodes of a tree -/

theorem located_eq (cs : List Bytes) (n : FdtNode) :
    n.located cs = (cs ++ [n.name], n) :: locatedAll (cs ++ [n.name]) n.children := by
  cases n
  rfl

theorem mem_located_self (cs : List Bytes) (n : FdtNode) : (cs ++ [n.name], n) ∈ n.located cs := by
  rw [located_eq]
  exact List.mem_cons_self

theorem mem_locatedAll {l : List FdtNode} {e : List Bytes × FdtNode} :
    e ∈ locatedAll cs l ↔ ∃ c ∈ l, e ∈ c.located cs := by
  induction l with
  | nil => simp [locatedAll]
  | cons c l ih => simp [locatedAll, ih]

/-- A node below some components has them and its name at the front of its own. -/
theorem prefix_of_mem_located {n : FdtNode} {cs : List Bytes} {e : List Bytes × FdtNode}
    (h : e ∈ n.located cs) : (cs ++ [n.name]) <+: e.1 := by
  induction n using induct generalizing cs with
  | node name props children ih =>
      rw [located_eq] at h
      rcases List.mem_cons.1 h with rfl | hbelow
      · exact List.prefix_rfl
      · obtain ⟨c, hc, hec⟩ := mem_locatedAll.1 hbelow
        exact (List.prefix_append _ _).trans (ih c hc hec)

/-- No node below some components has these components. -/
theorem notMem_locatedAll (cs : List Bytes) (l : List FdtNode) :
    cs ∉ (locatedAll cs l).map Prod.fst := by
  intro hmem
  obtain ⟨e, he, heq⟩ := List.mem_map.1 hmem
  obtain ⟨c, _, hec⟩ := mem_locatedAll.1 he
  have hlen := (prefix_of_mem_located hec).length_le
  rw [heq, List.length_append, List.length_singleton] at hlen
  exact Nat.not_succ_le_self _ hlen

/-- If all names below the root are components, all paths are clear. -/
theorem clear_of_components {n : FdtNode} {cs : List Bytes} (hcs : Clear (cs ++ [n.name]))
    (h : ∀ e ∈ n.located cs, ∀ c ∈ e.2.children, IsComponent c.name) :
    ∀ e ∈ n.located cs, Clear e.1 := by
  induction n using induct generalizing cs with
  | node name props children ih =>
      rw [located_eq] at h ⊢
      intro e he
      rcases List.mem_cons.1 he with rfl | hbelow
      · exact hcs
      · obtain ⟨c, hc, hec⟩ := mem_locatedAll.1 hbelow
        have hname := (h _ List.mem_cons_self c hc).2
        refine ih c hc (fun x hx => ?_) (fun e he => ?_) e hec
        · rcases List.mem_append.1 hx with hx | hx
          · exact hcs x hx
          · rw [List.mem_singleton.1 hx]
            exact hname
        · exact h e (List.mem_cons_of_mem _ (mem_locatedAll.2 ⟨c, hc, he⟩))

/-- Subnodes of different names have no path in common. -/
theorem nodup_locatedAll {l : List FdtNode} (hnames : (l.map FdtNode.name).Nodup)
    (h : ∀ c ∈ l, ((c.located cs).map Prod.fst).Nodup) :
    ((locatedAll cs l).map Prod.fst).Nodup := by
  induction l with
  | nil => exact List.nodup_nil
  | cons c l ih =>
      rw [List.map_cons, List.nodup_cons] at hnames
      rw [locatedAll, List.map_append]
      refine List.Nodup.append (h c List.mem_cons_self)
        (ih hnames.2 fun d hd => h d (List.mem_cons_of_mem _ hd)) fun ds hc hl => ?_
      obtain ⟨e, he, rfl⟩ := List.mem_map.1 hc
      obtain ⟨e', he', heq⟩ := List.mem_map.1 hl
      obtain ⟨d, hd, hed⟩ := mem_locatedAll.1 he'
      have hpre := prefix_of_mem_located hed
      rw [heq] at hpre
      have hsame := List.prefix_of_prefix_length_le hpre (prefix_of_mem_located he) (by simp)
      have hname : d.name = c.name := by
        have hlast := hsame.eq_of_length (by simp)
        simpa using hlast
      exact hnames.1 (hname ▸ List.mem_map_of_mem hd)

/-- If siblings have different names, nodes have different paths. -/
theorem nodup_located {n : FdtNode} {cs : List Bytes}
    (h : ∀ e ∈ n.located cs, (e.2.children.map FdtNode.name).Nodup) :
    ((n.located cs).map Prod.fst).Nodup := by
  induction n using induct generalizing cs with
  | node name props children ih =>
      rw [located_eq] at h ⊢
      rw [List.map_cons, List.nodup_cons]
      refine ⟨notMem_locatedAll _ _, ?_⟩
      exact nodup_locatedAll (h _ List.mem_cons_self) fun c hc => ih c hc fun e he =>
        h e (List.mem_cons_of_mem _ (mem_locatedAll.2 ⟨c, hc, he⟩))

namespace WellFormed

variable {root : FdtNode}

theorem clear (h : root.WellFormed) : ∀ e ∈ root.nodes, Clear e.1 := by
  intro e he
  rcases List.mem_cons.1 he with rfl | hbelow
  · exact fun c hc => absurd hc List.not_mem_nil
  · obtain ⟨c, hc, hec⟩ := mem_locatedAll.1 hbelow
    refine clear_of_components ?_ ?_ e hec
    · intro x hx
      rw [List.mem_singleton.1 hx]
      exact (h.components _ List.mem_cons_self c hc).2
    · intro e he
      exact h.components e (List.mem_cons_of_mem _ (mem_locatedAll.2 ⟨c, hc, he⟩))

theorem nodup (h : root.WellFormed) : (root.nodes.map Prod.fst).Nodup := by
  rw [nodes, List.map_cons, List.nodup_cons]
  refine ⟨notMem_locatedAll _ _, ?_⟩
  exact nodup_locatedAll (h.siblings _ List.mem_cons_self) fun c hc => nodup_located fun e he =>
    h.siblings e (List.mem_cons_of_mem _ (mem_locatedAll.2 ⟨c, hc, he⟩))

end WellFormed

end FdtNode

/-- Of entries with different keys, those of one key are the one. -/
theorem flatMap_of_nodup {α κ β : Type} [DecidableEq κ] {key : α → κ} {l : List α}
    (hl : (l.map key).Nodup) {e : α} (he : e ∈ l) (f : α → List β) :
    (l.flatMap fun x => if key x = key e then f x else []) = f e := by
  induction l with
  | nil => exact absurd he List.not_mem_nil
  | cons x l ih =>
      rw [List.map_cons, List.nodup_cons] at hl
      rw [List.flatMap_cons]
      rcases List.mem_cons.1 he with rfl | hmem
      · have hrest : (l.flatMap fun x => if key x = key e then f x else []) = [] := by
          refine List.flatMap_eq_nil_iff.2 fun x hx => if_neg fun heq => hl.1 ?_
          rw [← heq]
          exact List.mem_map_of_mem hx
        rw [if_pos rfl, hrest, List.append_nil]
      · have hne : key x ≠ key e := fun heq => hl.1 (heq ▸ List.mem_map_of_mem hmem)
        rw [if_neg hne, List.nil_append, ih hl.2 hmem]

namespace FdtNode.WellFormed

variable {root : FdtNode}

/-- Under the path of a node a walker meets exactly its properties. -/
theorem propsAt_node (h : root.WellFormed) {e : List Bytes × FdtNode} (he : e ∈ root.nodes) :
    propsAt (joinPath e.1) [] 0 false root.items = e.2.props := by
  rw [propsAt_items h.rootName h.clear, ← flatMap_of_nodup h.nodup he fun x => x.2.props]
  refine List.flatMap_congr fun x hx => ?_
  rw [propsOf]
  refine if_congr ⟨joinPath_inj (h.clear x hx) (h.clear e he), fun heq => ?_⟩ rfl rfl
  rw [heq]

/-- Under `/` it meets none. -/
theorem propsAt_slash (h : root.WellFormed) : propsAt [slash] [] 0 false root.items = [] := by
  rw [propsAt_items h.rootName h.clear]
  exact List.flatMap_eq_nil_iff.2 fun x hx => if_neg (joinPath_ne_slash (h.clear x hx))

end FdtNode.WellFormed

/-! ### Walking through the records of a tree -/

/-- What a walker returns that meets the properties with these data in the node. -/
def foldHits {α ρ : Type} (onProp : α → Bytes → Span → Round α ρ × List Span) (finish : α → ρ) :
    α → List (FdtProp × Span) → ρ
  | acc, [] => finish acc
  | acc, (q, data) :: hits =>
      match (onProp acc q.name data).1 with
      | .more acc' => foldHits onProp finish acc' hits
      | .done r => r

/-- The name of a property can be read. -/
def FdtRecord.Readable (p : FdtParser) (mem : Mem) : FdtRecord → Prop
  | .prop nameoff q => (p.readString mem (p.stringsBase + nameoff)).1 = .ok q.name
  | _ => True

namespace FdtParser

variable {α ρ : Type} {p : FdtParser} {mem : Mem}
  {onProp : α → Bytes → Span → Round α ρ × List Span} {finish : α → ρ}

/-- The rest of the structure lies at an offset: these records and the end. -/
structure Ahead (p : FdtParser) (mem : Mem) (off : ℕ) (records : List FdtRecord) : Prop where
  bytes : Holds mem (p.structStart + off) (records.flatMap FdtRecord.bytes ++ beBytes 4 fdtEnd)
  size : off + (records.flatMap FdtRecord.bytes).length + 4 = p.header.sizeDtStruct
  inside : p.structEnd ≤ p.blobEnd
  fits : ∀ r ∈ records, r.Fits
  readable : ∀ r ∈ records, r.Readable p mem

namespace Ahead

variable {off : ℕ} {r : FdtRecord} {records : List FdtRecord}

theorem tail (h : p.Ahead mem off (r :: records)) : p.Ahead mem (off + r.token.size) records where
  bytes := by
    have hbytes := h.bytes
    rw [List.flatMap_cons, List.append_assoc, holds_append, r.length_bytes, Nat.add_assoc] at hbytes
    exact hbytes.2
  size := by
    have hsize := h.size
    rw [List.flatMap_cons, List.length_append, r.length_bytes] at hsize
    omega
  inside := h.inside
  fits r' hr' := h.fits r' (List.mem_cons_of_mem _ hr')
  readable r' hr' := h.readable r' (List.mem_cons_of_mem _ hr')

theorem lt (h : p.Ahead mem off records) : p.structStart + off < p.structEnd := by
  have hsize := h.size
  rw [structEnd]
  omega

theorem readToken (h : p.Ahead mem off (r :: records)) : (p.readToken mem off).1 = .ok r.token := by
  have hbytes := h.bytes
  have hsize := h.size
  have hinside := h.inside
  rw [structEnd] at hinside
  rw [List.flatMap_cons, List.append_assoc, holds_append] at hbytes
  rw [List.flatMap_cons, List.length_append] at hsize
  exact readToken_record hbytes.1 (h.fits r List.mem_cons_self) (by omega)

theorem readToken_nil (h : p.Ahead mem off []) : (p.readToken mem off).1 = .ok .fin := by
  have hsize := h.size
  have hinside := h.inside
  rw [structEnd] at hinside
  rw [List.flatMap_nil, List.length_nil] at hsize
  exact readToken_end h.bytes (by omega)

/-- The data of a property that is ahead. -/
theorem data {nameoff : ℕ} {q : FdtProp} (h : p.Ahead mem off (.prop nameoff q :: records)) :
    (p.dataSpan off q.value.length).bytes mem = q.value := by
  have hbytes := h.bytes
  rw [List.flatMap_cons, List.append_assoc, holds_append, FdtRecord.bytes, holds_append,
    length_beBytes, holds_append, length_beBytes, holds_append, length_beBytes, pad4,
    holds_append] at hbytes
  have hdata := hbytes.1.2.2.2.1
  rw [Nat.add_assoc, Nat.add_assoc, Nat.add_assoc] at hdata
  exact hdata

end Ahead

theorem seekRound_of_token {c : SeekState α} {t : FdtToken}
    (hlt : p.structStart + c.offset < p.structEnd) (ht : (p.readToken mem c.offset).1 = .ok t) :
    (p.seekRound mem target onProp finish c).1 = (p.seekToken mem target onProp finish c t).1 := by
  rw [seekRound, if_pos hlt]
  dsimp only
  rw [ht]

variable (target onProp finish) in
/-- A walk through records meets the properties that stand in their items under the path, each with
its value. -/
theorem seek_returns {records : List FdtRecord} {c : SeekState α} {inNode : Bool}
    (h : p.Ahead mem c.offset records) (hin : c.inTarget = (inNode && c.path == target)) :
    ∃ hits : List (FdtProp × Span),
      hits.map Prod.fst =
        propsAt target c.path c.depth inNode (records.filterMap FdtRecord.item) ∧
      (∀ hit ∈ hits, hit.2.bytes mem = hit.1.value) ∧
      Returns (fun c => (p.seekRound mem target onProp finish c).1) c
        (foldHits onProp finish c.acc hits) := by
  have hnone : ∀ hit ∈ ([] : List (FdtProp × Span)), hit.2.bytes mem = hit.1.value :=
    fun _ hmem => absurd hmem List.not_mem_nil
  induction records generalizing c inNode with
  | nil =>
      exact ⟨[], rfl, hnone, .done (seekRound_of_token h.lt h.readToken_nil)⟩
  | cons r records ih =>
      have hround : (p.seekRound mem target onProp finish c).1 = _ :=
        seekRound_of_token h.lt h.readToken
      cases r with
      | beginNode name =>
          obtain ⟨hits, hfst, hvalues, hreturns⟩ := @ih ⟨c.offset +
            (FdtToken.beginNode name).size, pushName c.path c.depth name, c.depth + 1,
            pushName c.path c.depth name == target, c.acc⟩ true h.tail (Bool.true_and _).symm
          exact ⟨hits, hfst, hvalues, .more hround hreturns⟩
      | endNode =>
          rw [FdtRecord.token, seekToken] at hround
          by_cases hdepth : c.depth = 0
          · rw [if_pos hdepth] at hround
            refine ⟨[], ?_, hnone, .done hround⟩
            exact (if_pos hdepth).symm
          · rw [if_neg hdepth] at hround
            obtain ⟨hits, hfst, hvalues, hreturns⟩ := @ih ⟨c.offset + 4, popName c.path,
              c.depth - 1, false, c.acc⟩ false h.tail rfl
            refine ⟨hits, ?_, hvalues, .more hround hreturns⟩
            exact hfst.trans (if_neg hdepth).symm
      | prop nameoff q =>
          have htarget : (inNode = true ∧ c.path = target) ↔ c.inTarget = true := by
            rw [hin, Bool.and_eq_true, beq_iff_eq]
          have hrest := fun acc => @ih { c with
            offset := c.offset + (FdtToken.prop q.value.length nameoff).size, acc := acc }
            inNode h.tail hin
          rw [FdtRecord.token, seekToken, seekProp] at hround
          by_cases hc : c.inTarget = true
          · have hname : (p.readString mem (p.stringsBase + nameoff)).1 = .ok q.name :=
              h.readable _ List.mem_cons_self
            rw [if_pos hc] at hround
            dsimp only at hround
            rw [hname] at hround
            have hitems : ∀ hits : List (FdtProp × Span), hits.map Prod.fst =
                propsAt target c.path c.depth inNode (records.filterMap FdtRecord.item) →
                q :: hits.map Prod.fst =
                  propsAt target c.path c.depth inNode
                    (.prop q :: records.filterMap FdtRecord.item) :=
              fun hits hfst => by rw [propsAt, if_pos (htarget.2 hc), hfst]
            -- the value is taken or the walk goes on, as `onProp` says
            cases hon : (onProp c.acc q.name (p.dataSpan c.offset q.value.length)).1 with
            | done r =>
                rw [dataSpan] at hon
                dsimp only at hround
                rw [hon] at hround
                obtain ⟨hits, hfst, hvalues, _⟩ := hrest c.acc
                refine ⟨(q, p.dataSpan c.offset q.value.length) :: hits, hitems hits hfst,
                  List.forall_mem_cons.2 ⟨h.data, hvalues⟩, ?_⟩
                rw [foldHits, dataSpan, hon]
                exact .done hround
            | more acc =>
                rw [dataSpan] at hon
                dsimp only at hround
                rw [hon] at hround
                obtain ⟨hits, hfst, hvalues, hreturns⟩ := hrest acc
                refine ⟨(q, p.dataSpan c.offset q.value.length) :: hits, hitems hits hfst,
                  List.forall_mem_cons.2 ⟨h.data, hvalues⟩, ?_⟩
                rw [foldHits, dataSpan, hon]
                exact .more hround hreturns
          · rw [if_neg hc] at hround
            obtain ⟨hits, hfst, hvalues, hreturns⟩ := hrest c.acc
            refine ⟨hits, ?_, hvalues, .more hround hreturns⟩
            rw [List.filterMap_cons]
            dsimp only [FdtRecord.item]
            rw [propsAt, if_neg fun hboth => hc (htarget.1 hboth), hfst]
      | nop =>
          obtain ⟨hits, hfst, hvalues, hreturns⟩ :=
            @ih { c with offset := c.offset + 4 } inNode h.tail hin
          exact ⟨hits, hfst, hvalues, .more hround hreturns⟩

/-! ### What is returned -/

/-- A parser has the header that lies at its base. -/
theorem eq_of_new {base : ℕ} (h : FdtParser.new mem base = .ok p) :
    p = ⟨base, FdtHeader.read mem base⟩ := by
  rw [new] at h
  split at h
  · cases h
  · split at h
    · cases h
    · rename_i header hheader
      split at h <;> cases h
      rw [parseHeader] at hheader
      repeat' split at hheader
      all_goals cases hheader
      rfl

theorem foldHits_take {propName : Bytes} {hits : List (FdtProp × Span)} :
    foldHits (takeProperty propName) (fun _ => none) () hits =
      (hits.find? fun hit => hit.1.name == propName).map Prod.snd := by
  induction hits with
  | nil => rfl
  | cons hit hits ih =>
      rw [foldHits, takeProperty, List.find?_cons]
      by_cases hname : hit.1.name = propName
      · rw [if_pos hname, beq_iff_eq.2 hname]
        rfl
      · rw [if_neg hname, beq_eq_false_iff_ne.2 hname]
        exact ih

theorem foldHits_copy {properties : List (Bytes × Bytes)} {hits : List (FdtProp × Span)} :
    foldHits (copyProperty mem) id properties hits =
      properties ++ hits.map fun hit => (hit.1.name, hit.2.bytes mem) := by
  induction hits generalizing properties with
  | nil => exact (List.append_nil _).symm
  | cons hit hits ih =>
      rw [foldHits, copyProperty]
      exact ih.trans (List.append_assoc _ _ _)

/-- The first value of a name among some properties. -/
def valueOf (propName : Bytes) (props : List FdtProp) : Option Bytes :=
  (props.find? fun q => q.name == propName).map FdtProp.value

section tree

variable {records : List FdtRecord} {root : FdtNode} {fuel : ℕ}

/-- A whole walk, from the beginning of the structure on. -/
theorem seek_out (target : Bytes) (onProp : α → Bytes → Span → Round α ρ × List Span)
    (finish : α → ρ) (h : p.Ahead mem 0 records)
    (hitems : records.filterMap FdtRecord.item = root.items)
    (hfuel : p.header.sizeDtStruct < fuel) (acc : α) :
    ∃ hits log, hits.map Prod.fst = propsAt target [] 0 false root.items ∧
      (∀ hit ∈ hits, Span.bytes mem hit.2 = hit.1.value) ∧
      run (logged (p.seekRound mem target onProp finish)) fuel (⟨0, [], 0, false, acc⟩, []) =
        some (foldHits onProp finish acc hits, log) := by
  have hsome : (run (logged (p.seekRound mem target onProp finish)) fuel
      (⟨0, [], 0, false, acc⟩, [])).isSome = true := seek_isSome acc hfuel
  obtain ⟨⟨r, log⟩, hout⟩ := Option.isSome_iff_exists.1 hsome
  have hstart : SeekState.inTarget ⟨0, [], 0, false, acc⟩ = (false && [] == target) := rfl
  obtain ⟨hits, hfst, hvalues, hreturns⟩ := seek_returns target onProp finish
    (c := ⟨0, [], 0, false, acc⟩) h hstart
  rw [hitems] at hfst
  have hrun := run_logged (p.seekRound mem target onProp finish) fuel ⟨0, [], 0, false, acc⟩ []
  rw [hout, Option.map_some] at hrun
  obtain rfl : r = foldHits onProp finish acc hits := hreturns.eq hrun.symm
  exact ⟨hits, log, hfst, hvalues, hout⟩

/-- `read_property` returns the first value of the name among the properties under the path. -/
theorem readProperty_eq (h : p.Ahead mem 0 records)
    (hitems : records.filterMap FdtRecord.item = root.items)
    (hfuel : p.header.sizeDtStruct < fuel) (target propName : Bytes) :
    ∃ data log, p.readProperty mem fuel target propName = some (data, log) ∧
      data.map (Span.bytes mem) = valueOf propName (propsAt target [] 0 false root.items) := by
  obtain ⟨hits, log, hfst, hvalues, hout⟩ := seek_out target
    (takeProperty propName) (fun _ => none) h hitems hfuel ()
  refine ⟨_, log, hout, ?_⟩
  rw [foldHits_take, ← hfst, valueOf, List.find?_map, Option.map_map, Option.map_map]
  -- the data that is found has the value of its property
  refine Option.map_congr fun hit hfind => ?_
  exact hvalues hit (List.mem_of_find?_eq_some hfind)

/-- `get_all_properties` returns the properties under the path. -/
theorem getAllProperties_eq (h : p.Ahead mem 0 records)
    (hitems : records.filterMap FdtRecord.item = root.items)
    (hfuel : p.header.sizeDtStruct < fuel) (target : Bytes) :
    ∃ log, p.getAllProperties mem fuel target =
      some ((propsAt target [] 0 false root.items).map fun q => (q.name, q.value), log) := by
  obtain ⟨hits, log, hfst, hvalues, hout⟩ := seek_out target
    (copyProperty mem) id h hitems hfuel []
  refine ⟨log, hout.trans ?_⟩
  rw [foldHits_copy, ← hfst, List.map_map, List.nil_append]
  congr 2
  refine List.map_congr_left fun hit hmem => ?_
  rw [hvalues hit hmem, Function.comp_apply]

end tree

/-- A node with the path components `cs` is found: `read_property` gives the first value of every
name among its properties, and nothing for other names, and `get_all_properties` gives them in
order. -/
def FindsNode (p : FdtParser) (mem : Mem) (cs : List Bytes) (n : FdtNode) : Prop :=
  ∀ fuel, p.header.sizeDtStruct < fuel →
    (∀ propName, ∃ data log, p.readProperty mem fuel (apiPath cs) propName = some (data, log) ∧
      data.map (Span.bytes mem) = valueOf propName n.props) ∧
    ∃ log, p.getAllProperties mem fuel (apiPath cs) =
      some (n.props.map fun q => (q.name, q.value), log)

end FdtParser

/-! ### Trees in a blob -/

namespace FdtNode

theorem mem_itemsAll {l : List FdtNode} {it : FdtItem} :
    it ∈ itemsAll l ↔ ∃ c ∈ l, it ∈ c.items := by
  induction l with
  | nil => simp [itemsAll]
  | cons c l ih => simp [itemsAll, ih]

/-- An item of a node is its beginning, its end, one of its properties, or an item of a subnode. -/
theorem mem_items {n : FdtNode} {it : FdtItem} (h : it ∈ n.items) :
    it = .beginNode n.name ∨ it = .endNode ∨ (∃ q ∈ n.props, it = .prop q) ∨
      ∃ c ∈ n.children, it ∈ c.items := by
  obtain ⟨name, props, children⟩ := n
  rw [items] at h
  rcases List.mem_cons.1 h with rfl | h
  · exact Or.inl rfl
  rcases List.mem_append.1 h with hprop | h
  · obtain ⟨q, hq, rfl⟩ := List.mem_map.1 hprop
    exact Or.inr (Or.inr (Or.inl ⟨q, hq, rfl⟩))
  rcases List.mem_append.1 h with hbelow | hend
  · exact Or.inr (Or.inr (Or.inr (mem_itemsAll.1 hbelow)))
  · exact Or.inr (Or.inl (List.mem_singleton.1 hend))

/-- The name that an item holds satisfies a condition. -/
def NameIs (P : Bytes → Prop) : FdtItem → Prop
  | .beginNode name => P name
  | .prop q => P q.name
  | .endNode => True

/-- If the names of all subnodes and properties satisfy a condition, so do those of all items. -/
theorem nameIs_items {P : Bytes → Prop} {n : FdtNode} {cs : List Bytes} (hname : P n.name)
    (hchildren : ∀ e ∈ n.located cs, ∀ c ∈ e.2.children, P c.name)
    (hprops : ∀ e ∈ n.located cs, ∀ q ∈ e.2.props, P q.name) : ∀ it ∈ n.items, NameIs P it := by
  induction n using induct generalizing cs with
  | node name props children ih =>
      intro it hit
      rcases mem_items hit with rfl | rfl | ⟨q, hq, rfl⟩ | ⟨c, hc, hitem⟩
      · exact hname
      · trivial
      · exact hprops _ (mem_located_self cs _) q hq
      · rw [located_eq] at hchildren hprops
        have hmem : ∀ e ∈ c.located (cs ++ [name]), e ∈ locatedAll (cs ++ [name]) children :=
          fun e he => mem_locatedAll.2 ⟨c, hc, he⟩
        exact ih c hc (hchildren _ List.mem_cons_self c hc)
          (fun e he => hchildren e (List.mem_cons_of_mem _ (hmem e he)))
          (fun e he => hprops e (List.mem_cons_of_mem _ (hmem e he))) it hitem

/-- All names of a well-formed tree can be read back. -/
theorem WellFormed.isName_items {root : FdtNode} (h : root.WellFormed) :
    ∀ it ∈ root.items, NameIs IsName it := by
  intro it hit
  rcases mem_items hit with rfl | rfl | ⟨q, hq, rfl⟩ | ⟨c, hc, hitem⟩
  · rw [NameIs, h.rootName]
    decide
  · trivial
  · exact h.propNames _ List.mem_cons_self q hq
  · have hmem : ∀ e ∈ c.located [], e ∈ root.nodes := fun e he =>
      List.mem_cons_of_mem _ (mem_locatedAll.2 ⟨c, hc, he⟩)
    exact nameIs_items (h.components _ List.mem_cons_self c hc).1
      (fun e he d hd => (h.components e (hmem e he) d hd).1)
      (fun e he => h.propNames e (hmem e he)) it hitem

end FdtNode

namespace LaidOut

variable {mem : Mem} {base : ℕ} {root : FdtNode} {records : List FdtRecord}

/-- A record takes no more room than the structure. -/
theorem length_le (h : LaidOut mem base root records) {r : FdtRecord} (hr : r ∈ records) :
    r.bytes.length ≤ (FdtHeader.read mem base).sizeDtStruct := by
  have hle :=
    (List.sublist_flatten_of_mem (List.mem_map_of_mem (f := FdtRecord.bytes) hr)).length_le
  rw [h.size, List.flatMap_def]
  omega

/-- The parser can walk through the records. -/
theorem ahead (h : LaidOut mem base root records) (hroot : root.WellFormed) :
    FdtParser.Ahead ⟨base, FdtHeader.read mem base⟩ mem 0 records := by
  have hitem : ∀ r ∈ records, ∀ it, r.item = some it → FdtNode.NameIs IsName it := by
    intro r hr it hit
    refine hroot.isName_items it ?_
    rw [← h.items]
    exact List.mem_filterMap.2 ⟨r, hr, hit⟩
  refine ⟨h.bytes, ?_, ?_, fun r hr => ?_, fun r hr => ?_⟩
  · rw [Nat.zero_add]
    exact h.size.symm
  · have hinside := h.structInside
    rw [FdtParser.structEnd, FdtParser.structStart, FdtParser.blobEnd]
    dsimp only
    omega
  · have hlen := h.length_le hr
    have hbound : (FdtHeader.read mem base).sizeDtStruct < 256 ^ 4 := beRead_lt
    have hstrings : (FdtHeader.read mem base).sizeDtStrings < 256 ^ 4 := beRead_lt
    cases r with
    | beginNode name => exact hitem _ hr _ rfl
    | prop nameoff q =>
        have hnamed := (h.names _ hr).1
        have hpad := align4_le q.value.length
        rw [FdtRecord.length_bytes, FdtRecord.token, FdtToken.size] at hlen
        exact ⟨by omega, by omega⟩
    | endNode => trivial
    | nop => trivial
  · cases r with
    | prop nameoff q =>
        obtain ⟨hsize, hname⟩ := h.names _ hr
        have hinside := h.stringsInside
        refine FdtParser.readString_of_holds hname (hitem _ hr _ rfl)
          (Nat.le_add_right_of_le (Nat.le_add_right _ _)) ?_
        rw [FdtParser.stringsBase, FdtParser.blobEnd]
        dsimp only
        omega
    | beginNode name => trivial
    | endNode => trivial
    | nop => trivial

end LaidOut

namespace FdtParser

variable {mem : Mem} {p : FdtParser} {root n : FdtNode} {records : List FdtRecord} {cs : List Bytes}

/-- A node is found if a walker meets its properties under its path. -/
theorem findsNode_of_propsAt (h : p.Ahead mem 0 records)
    (hitems : records.filterMap FdtRecord.item = root.items)
    (hprops : propsAt (apiPath cs) [] 0 false root.items = n.props) : p.FindsNode mem cs n := by
  intro fuel hfuel
  rw [← hprops]
  exact ⟨readProperty_eq h hitems hfuel _, getAllProperties_eq h hitems hfuel _⟩

end FdtParser

/-- A node of a tree that is laid out in a blob is found exactly if it is not the root, or has no
properties. -/
theorem fdt_lookup_iff {mem : Mem} {addr : ℕ} {p : FdtParser} {root n : FdtNode}
    {records : List FdtRecord} {cs : List Bytes} (hnew : FdtParser.new mem addr = .ok p)
    (hlaid : LaidOut mem addr root records) (hroot : root.WellFormed) (hn : (cs, n) ∈ root.nodes) :
    p.FindsNode mem cs n ↔ cs ≠ [] ∨ n.props = [] := by
  have hahead := hlaid.ahead hroot
  rw [← FdtParser.eq_of_new hnew] at hahead
  cases cs with
  | nil =>
      constructor
      · intro hfinds
        -- under `/` no properties are met
        obtain ⟨_, log, hall⟩ := hfinds _ (Nat.lt_succ_self _)
        obtain ⟨log', hnone⟩ := FdtParser.getAllProperties_eq hahead hlaid.items
          (Nat.lt_succ_self _) [slash]
        rw [apiPath, hnone, hroot.propsAt_slash, List.map_nil] at hall
        cases hprops : n.props with
        | nil => exact Or.inr rfl
        | cons q props =>
            rw [hprops] at hall
            cases hall
      · rintro (hne | hprops)
        · exact absurd rfl hne
        · refine FdtParser.findsNode_of_propsAt hahead hlaid.items ?_
          rw [apiPath, hroot.propsAt_slash, hprops]
  | cons c cs =>
      refine ⟨fun _ => Or.inl (List.cons_ne_nil c cs), fun _ => ?_⟩
      exact FdtParser.findsNode_of_propsAt hahead hlaid.items (hroot.propsAt_node hn)

/-! ### A small tree -/

/-- A root with a `model` and one subnode `soc` with a `reg`. -/
def sampleTree : FdtNode :=
  .node [] [⟨[0x6d#8, 0x6f#8, 0x64#8, 0x65#8, 0x6c#8], [0x53#8, 0x54#8, 0x41#8, 0x52#8, 0#8]⟩]
    [.node [0x73#8, 0x6f#8, 0x63#8] [⟨[0x72#8, 0x65#8, 0x67#8], [1#8, 2#8]⟩] []]

/-- Its records, with tokens without meaning between them. -/
def sampleRecords : List FdtRecord :=
  [.nop, .beginNode [],
    .prop 0 ⟨[0x6d#8, 0x6f#8, 0x64#8, 0x65#8, 0x6c#8], [0x53#8, 0x54#8, 0x41#8, 0x52#8, 0#8]⟩,
    .beginNode [0x73#8, 0x6f#8, 0x63#8], .nop, .prop 6 ⟨[0x72#8, 0x65#8, 0x67#8], [1#8, 2#8]⟩,
    .endNode, .endNode]

/-- A blob that it is laid out in. -/
def sampleBlob : Bytes :=
  fdtBlob sampleRecords
    [0x6d#8, 0x6f#8, 0x64#8, 0x65#8, 0x6c#8, 0#8, 0x72#8, 0x65#8, 0x67#8, 0#8]

/-- The parser of the blob. -/
def sampleParser : FdtParser := ⟨4096, ⟨fdtMagic, 122, 40, 112, 0, 17, 16, 0, 10, 72⟩⟩

theorem new_sampleBlob : FdtParser.new (memOf 4096 sampleBlob) 4096 = .ok sampleParser := by
  decide +kernel

theorem laidOut_sampleBlob : LaidOut (memOf 4096 sampleBlob) 4096 sampleTree sampleRecords :=
  laidOut_fdtBlob (by decide) (by decide +kernel) (by decide)

theorem wellFormed_sampleTree : sampleTree.WellFormed := by decide +kernel

/-- The subnode is found under its name. -/
theorem fdt_lookup_soc : ∃ n, ([[0x73#8, 0x6f#8, 0x63#8]], n) ∈ sampleTree.nodes ∧
    sampleParser.FindsNode (memOf 4096 sampleBlob) [[0x73#8, 0x6f#8, 0x63#8]] n :=
  ⟨_, List.mem_cons_of_mem _ List.mem_cons_self, (fdt_lookup_iff new_sampleBlob laidOut_sampleBlob
    wellFormed_sampleTree (List.mem_cons_of_mem _ List.mem_cons_self)).2
    (Or.inl (List.cons_ne_nil _ _))⟩

/-- The `model` of the root is not found under `/`. -/
theorem fdt_root_not_found : ∃ mem addr p root records, FdtParser.new mem addr = .ok p ∧
    LaidOut mem addr root records ∧ root.WellFormed ∧
    (∃ q ∈ root.props, ∃ log, p.readProperty mem 73 (apiPath []) q.name = some (none, log)) ∧
    ¬ p.FindsNode mem [] root := by
  have hnone : (sampleParser.readProperty (memOf 4096 sampleBlob) 73 (apiPath [])
      [0x6d#8, 0x6f#8, 0x64#8, 0x65#8, 0x6c#8]).map Prod.fst = some none := by decide +kernel
  obtain ⟨⟨r, log⟩, hread, rfl⟩ := Option.map_eq_some_iff.1 hnone
  refine ⟨_, _, _, _, _, new_sampleBlob, laidOut_sampleBlob, wellFormed_sampleTree,
    ⟨_, List.mem_cons_self, log, hread⟩, fun hfinds => ?_⟩
  obtain ⟨data, log', hread', hdata⟩ := (hfinds 73 (by decide)).1
    [0x6d#8, 0x6f#8, 0x64#8, 0x65#8, 0x6c#8]
  rw [hread] at hread'
  cases hread'
  exact absurd hdata (by decide)

end StarOS

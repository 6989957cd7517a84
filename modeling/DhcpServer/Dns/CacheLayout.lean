import DhcpServer.Dns.CacheFile
import DhcpServer.Library.Run
import Mathlib.Data.List.Perm.Subperm

/-!
# The layout of the built-in cache

`Layout` is the representation invariant: which nodes each bucket chain and the free stack hold,
that together they are the pool, and that chained nodes sit where their names hash to. Every
primitive moves one node between the free stack, the chains and the hand of the function that is
working on it; the operations are put together from these moves.
-/

namespace DhcpServer.Dns.InternalCache

open Library Function
open List hiding Chain

variable {arena arena' : Arena} {chains : Nat → List Nat} {free hand : List Nat}
  {index bucket : Nat}

/-- A node without its link: the record in it, if it is chained. -/
def Node.record (node : Node) : Node := { node with next := none }

abbrev Key := Bytes × UInt16

def Node.key (node : Node) : Key := (node.name, node.qtype)

structure Layout (arena : Arena) (chains : Nat → List Nat) (free hand : List Nat) : Prop where
  chain : ∀ bucket < arena.numBuckets, Chain arena.link (arena.buckets bucket) (chains bucket)
  freeChain : Chain arena.link arena.freeHead free
  /-- every node is in exactly one place -/
  pool : (hand ++ (free ++ allMembers arena.numBuckets chains)).Perm (List.range arena.nodeCount)
  placed : ∀ bucket < arena.numBuckets, ∀ index ∈ chains bucket,
    arena.bucketOf (arena.nodes index).hash = bucket ∧
      (arena.nodes index).hash = hashName (arena.nodes index).name
  distinct : ∀ index ∈ allMembers arena.numBuckets chains,
    ∀ other ∈ allMembers arena.numBuckets chains,
      (arena.nodes index).name = (arena.nodes other).name →
      (arena.nodes index).qtype = (arena.nodes other).qtype → index = other
  entries : arena.entries = (allMembers arena.numBuckets chains).length
  numBuckets_pos : 0 < arena.numBuckets
  nodeCount_pos : 0 < arena.nodeCount

/-- Chains and free stack partition the pool and hold what they should. -/
def WellFormed (arena : Arena) : Prop := ∃ chains free, Layout arena chains free []

structure SameShape (arena arena' : Arena) : Prop where
  nodeCount : arena'.nodeCount = arena.nodeCount
  buckets : arena'.buckets = arena.buckets
  numBuckets : arena'.numBuckets = arena.numBuckets
  freeHead : arena'.freeHead = arena.freeHead
  entries : arena'.entries = arena.entries
  next : ∀ index, (arena'.nodes index).next = (arena.nodes index).next
  hash : ∀ index, (arena'.nodes index).hash = (arena.nodes index).hash
  qtype : ∀ index, (arena'.nodes index).qtype = (arena.nodes index).qtype
  name : ∀ index, (arena'.nodes index).name = (arena.nodes index).name

theorem SameShape.refl (arena : Arena) : SameShape arena arena := by
  constructor <;> intros <;> rfl

theorem SameShape.trans {middle : Arena} (hfirst : SameShape arena middle)
    (hsecond : SameShape middle arena') : SameShape arena arena' where
  nodeCount := hsecond.nodeCount.trans hfirst.nodeCount
  buckets := hsecond.buckets.trans hfirst.buckets
  numBuckets := hsecond.numBuckets.trans hfirst.numBuckets
  freeHead := hsecond.freeHead.trans hfirst.freeHead
  entries := hsecond.entries.trans hfirst.entries
  next index := (hsecond.next index).trans (hfirst.next index)
  hash index := (hsecond.hash index).trans (hfirst.hash index)
  qtype index := (hsecond.qtype index).trans (hfirst.qtype index)
  name index := (hsecond.name index).trans (hfirst.name index)

theorem Layout.of_sameShape (hlayout : Layout arena chains free hand)
    (hshape : SameShape arena arena') : Layout arena' chains free hand := by
  have hlink : arena'.link = arena.link := funext hshape.next
  have hbucketOf : arena'.bucketOf = arena.bucketOf := by
    funext hash
    rw [Arena.bucketOf, Arena.bucketOf, hshape.numBuckets]
  constructor
  all_goals simp only [hlink, hbucketOf, hshape.numBuckets, hshape.buckets, hshape.freeHead,
    hshape.nodeCount, hshape.entries, hshape.hash, hshape.name, hshape.qtype]
  · exact hlayout.chain
  · exact hlayout.freeChain
  · exact hlayout.pool
  · exact hlayout.placed
  · exact hlayout.distinct
  · exact hlayout.entries
  · exact hlayout.numBuckets_pos
  · exact hlayout.nodeCount_pos

theorem sameShape_setNode (arena : Arena) (index : Nat) (node : Node)
    (hnext : node.next = (arena.nodes index).next) (hhash : node.hash = (arena.nodes index).hash)
    (hqtype : node.qtype = (arena.nodes index).qtype)
    (hname : node.name = (arena.nodes index).name) : SameShape arena (arena.setNode index node) := by
  constructor
  case next | hash | qtype | name =>
    intro other
    by_cases hother : other = index
    · subst hother
      simp [Arena.setNode, hnext, hhash, hqtype, hname]
    · simp [Arena.setNode, hother]
  all_goals rfl

theorem sameShape_noteMark (arena : Arena) (index : Nat) : SameShape arena (arena.noteMark index) := by
  unfold Arena.noteMark
  dsimp only
  repeat' split
  all_goals constructor <;> intros <;> rfl

theorem sameShape_counters (arena : Arena) (counters : Counters) :
    SameShape arena { arena with counters } := by
  constructor <;> intros <;> rfl

theorem sameShape_bumpUse (arena : Arena) (index : Nat) : SameShape arena (arena.bumpUse index) := by
  unfold Arena.bumpUse
  have hused := sameShape_setNode arena index
    { arena.nodes index with uses := Arena.saturatingSucc (arena.nodes index).uses } rfl rfl rfl rfl
  exact (hused.trans (sameShape_counters _ _)).trans (sameShape_noteMark _ _)

/-! ## Moving one node -/

structure SameRecords (arena arena' : Arena) : Prop where
  record : ∀ index, (arena'.nodes index).record = (arena.nodes index).record
  nodeCount : arena'.nodeCount = arena.nodeCount
  numBuckets : arena'.numBuckets = arena.numBuckets

theorem SameRecords.trans {middle : Arena} (hfirst : SameRecords arena middle)
    (hsecond : SameRecords middle arena') : SameRecords arena arena' where
  record index := (hsecond.record index).trans (hfirst.record index)
  nodeCount := hsecond.nodeCount.trans hfirst.nodeCount
  numBuckets := hsecond.numBuckets.trans hfirst.numBuckets

theorem SameRecords.name (hsame : SameRecords arena arena') (index : Nat) :
    (arena'.nodes index).name = (arena.nodes index).name := by
  simpa [Node.record] using congrArg Node.name (hsame.record index)

theorem SameRecords.hash (hsame : SameRecords arena arena') (index : Nat) :
    (arena'.nodes index).hash = (arena.nodes index).hash := by
  simpa [Node.record] using congrArg Node.hash (hsame.record index)

theorem SameRecords.qtype (hsame : SameRecords arena arena') (index : Nat) :
    (arena'.nodes index).qtype = (arena.nodes index).qtype := by
  simpa [Node.record] using congrArg Node.qtype (hsame.record index)

theorem record_setNext (arena : Arena) (index : Nat) (next : Option Nat) (other : Nat) :
    ((arena.setNext index next).nodes other).record = (arena.nodes other).record := by
  by_cases hother : other = index
  · subst hother
    simp [Arena.setNext, Arena.setNode, Node.record]
  · simp [Arena.setNext, Arena.setNode, hother]

theorem link_setNext (arena : Arena) (index : Nat) (next : Option Nat) :
    (arena.setNext index next).link = update arena.link index next := by
  funext other
  by_cases hother : other = index
  · subst hother
    simp [Arena.link, Arena.setNext, Arena.setNode]
  · simp [Arena.link, Arena.setNext, Arena.setNode, hother]

section

variable (hlayout : Layout arena chains free hand)
include hlayout

theorem Layout.nodup : (hand ++ (free ++ allMembers arena.numBuckets chains)).Nodup :=
  hlayout.pool.nodup_iff.mpr nodup_range

theorem Layout.nodup_members : (allMembers arena.numBuckets chains).Nodup :=
  (nodup_append.mp (nodup_append.mp hlayout.nodup).2.1).2.1

theorem Layout.lt_nodeCount
    (hindex : index ∈ allMembers arena.numBuckets chains) : index < arena.nodeCount := by
  apply mem_range.mp
  apply hlayout.pool.mem_iff.mp
  simp [hindex]

theorem Layout.length_le
    (hbucket : bucket < arena.numBuckets) : (chains bucket).length ≤ arena.nodeCount := by
  have hsubset : chains bucket ⊆ List.range arena.nodeCount := by
    intro index hindex
    apply mem_range.mpr
    exact hlayout.lt_nodeCount (mem_allMembers.mpr ⟨bucket, hbucket, hindex⟩)
  have hle := (subperm_of_subset (hlayout.chain bucket hbucket).nodup hsubset).length_le
  rwa [length_range] at hle

theorem Layout.not_mem_chain
    (hindex : index ∈ hand ++ free) : index ∉ allMembers arena.numBuckets chains := by
  have hnodup := hlayout.nodup
  rw [← append_assoc] at hnodup
  exact fun hmem ↦ (nodup_append.mp hnodup).2.2 index hindex index hmem rfl

end

theorem Layout.not_mem_free (hlayout : Layout arena chains free (index :: hand)) : index ∉ free := by
  have hnodup := (nodup_cons.mp hlayout.nodup).1
  exact fun hmem ↦ hnodup (by simp [hmem])

theorem Layout.chain_update (hlayout : Layout arena chains free hand)
    (hindex : index ∉ allMembers arena.numBuckets chains) (next : Option Nat)
    (hbucket : bucket < arena.numBuckets) :
    Chain (update arena.link index next) (arena.buckets bucket) (chains bucket) := by
  apply (hlayout.chain bucket hbucket).congr
  intro other hother
  apply update_of_ne
  rintro rfl
  exact hindex (mem_allMembers.mpr ⟨bucket, hbucket, hother⟩)

/-- A layout is about records and links: the same records in new places, with every chain
accounted for, are a layout again. -/
theorem Layout.move (hlayout : Layout arena chains free hand) {chains' : Nat → List Nat}
    {free' hand' : List Nat} (hrecords : SameRecords arena arena')
    (hchain : ∀ bucket < arena.numBuckets, Chain arena'.link (arena'.buckets bucket) (chains' bucket))
    (hfree : Chain arena'.link arena'.freeHead free')
    (hpool : (hand' ++ (free' ++ allMembers arena.numBuckets chains')).Perm
      (hand ++ (free ++ allMembers arena.numBuckets chains)))
    (hplaced : ∀ bucket < arena.numBuckets, ∀ index ∈ chains' bucket, index ∈ chains bucket)
    (hentries : arena'.entries = (allMembers arena.numBuckets chains').length) :
    Layout arena' chains' free' hand' := by
  have hnumBuckets := hrecords.numBuckets
  have hnodeCount := hrecords.nodeCount
  have hsubset : ∀ index ∈ allMembers arena.numBuckets chains',
      index ∈ allMembers arena.numBuckets chains := by
    intro index hindex
    obtain ⟨bucket, hbucket, hmem⟩ := mem_allMembers.mp hindex
    exact mem_allMembers.mpr ⟨bucket, hbucket, hplaced bucket hbucket index hmem⟩
  constructor
  · rwa [hnumBuckets]
  · exact hfree
  · rw [hnumBuckets, hnodeCount]
    exact hpool.trans hlayout.pool
  · rw [hnumBuckets]
    intro bucket hbucket index hindex
    rw [hrecords.hash, hrecords.name, Arena.bucketOf, hnumBuckets]
    exact hlayout.placed bucket hbucket index (hplaced bucket hbucket index hindex)
  · rw [hnumBuckets]
    intro index hindex other hother
    rw [hrecords.name, hrecords.name, hrecords.qtype, hrecords.qtype]
    exact hlayout.distinct index (hsubset index hindex) other (hsubset other hother)
  · rw [hnumBuckets, hentries]
  · rw [hnumBuckets]
    exact hlayout.numBuckets_pos
  · rw [hnodeCount]
    exact hlayout.nodeCount_pos

theorem Layout.allocNode (hlayout : Layout arena chains (index :: free) hand) :
    ∃ arena', arena.allocNode = (arena', some index) ∧
      Layout arena' chains free (index :: hand) ∧ SameRecords arena arena' := by
  have hhead : arena.freeHead = some index := hlayout.freeChain.head_eq
  have hrest : Chain arena.link (arena.link index) free := (hhead ▸ hlayout.freeChain).tail
  have hfresh : index ∉ free := (nodup_cons.mp hlayout.freeChain.nodup).1
  have htop : index ∈ hand ++ index :: free := by simp
  have hrecords : SameRecords arena
      { arena.setNext index none with freeHead := arena.link index } :=
    ⟨record_setNext arena index none, rfl, rfl⟩
  refine ⟨_, ?_, ?_, hrecords⟩
  · rw [Arena.allocNode, hhead]
  · apply hlayout.move hrecords
    · intro bucket hbucket
      exact link_setNext arena index none ▸
        hlayout.chain_update (hlayout.not_mem_chain htop) none hbucket
    · change Chain (arena.setNext index none).link _ _
      rw [link_setNext]
      apply hrest.congr
      intro other hother
      apply update_of_ne
      rintro rfl
      exact hfresh hother
    · simp only [cons_append]
      exact perm_middle.symm
    · exact fun _ _ _ hmem ↦ hmem
    · exact hlayout.entries

theorem Layout.freeNode (hlayout : Layout arena chains free (index :: hand)) :
    Layout (arena.freeNode index) chains (index :: free) hand ∧
      SameRecords arena (arena.freeNode index) := by
  have hrecords : SameRecords arena (arena.freeNode index) :=
    ⟨record_setNext arena index arena.freeHead, rfl, rfl⟩
  have hinHand : index ∈ (index :: hand) ++ free := by simp
  refine ⟨?_, hrecords⟩
  apply hlayout.move hrecords
  · intro bucket hbucket
    exact link_setNext arena index arena.freeHead ▸
      hlayout.chain_update (hlayout.not_mem_chain hinHand) arena.freeHead hbucket
  · change Chain (arena.setNext index arena.freeHead).link _ _
    rw [link_setNext]
    exact hlayout.freeChain.push hlayout.not_mem_free
  · simp only [cons_append]
    exact perm_middle
  · exact fun _ _ _ hmem ↦ hmem
  · exact hlayout.entries

theorem Layout.detach {before after : List Nat} (hlayout : Layout arena chains free hand)
    (hbucket : bucket < arena.numBuckets) (hchain : chains bucket = before ++ index :: after)
    {detached : Arena} (hrecords : SameRecords arena detached)
    (hothers : ∀ other < arena.numBuckets, other ≠ bucket →
      Chain detached.link (detached.buckets other) (chains other))
    (hshorter : Chain detached.link (detached.buckets bucket) (before ++ after))
    (hfree : Chain detached.link detached.freeHead free)
    (hentries : detached.entries = arena.entries - 1) :
    Layout detached (update chains bucket (before ++ after)) free (index :: hand) := by
  have hperm : (chains bucket).Perm (index :: (before ++ after)) := by
    rw [hchain]
    exact perm_middle
  have hmembers := allMembers_update_perm hbucket hperm
  apply hlayout.move hrecords
  · intro other hother
    by_cases hsame : other = bucket
    · subst hsame
      rwa [update_self]
    · rw [update_of_ne hsame]
      exact hothers other hother hsame
  · exact hfree
  · calc
      _ ~ hand ++ index :: (free ++ allMembers arena.numBuckets _) := perm_middle.symm
      _ ~ hand ++ (free ++ index :: allMembers arena.numBuckets _) := perm_middle.symm.append_left hand
      _ ~ _ := ((hmembers.append_left free).append_left hand).symm
  · intro other hother node hnode
    by_cases hsame : other = bucket
    · subst hsame
      rw [update_self] at hnode
      exact hperm.mem_iff.mpr (mem_cons_of_mem index hnode)
    · rwa [update_of_ne hsame] at hnode
  · rw [hentries, hlayout.entries, hmembers.length_eq, length_cons]
    omega

/-- The head of a chain is taken out by moving the bucket on. -/
def Arena.withoutHead (arena : Arena) (bucket index : Nat) : Arena :=
  { arena with
    buckets := update arena.buckets bucket (arena.link index)
    entries := arena.entries - 1 }

def Arena.linkedPast (arena : Arena) (previous index : Nat) : Arena :=
  { arena.setNext previous (arena.link index) with entries := arena.entries - 1 }

theorem sameRecords_withoutHead (arena : Arena) (bucket index : Nat) :
    SameRecords arena (arena.withoutHead bucket index) := ⟨fun _ ↦ rfl, rfl, rfl⟩

theorem sameRecords_linkedPast (arena : Arena) (previous index : Nat) :
    SameRecords arena (arena.linkedPast previous index) :=
  ⟨record_setNext arena previous _, rfl, rfl⟩

theorem Layout.withoutHead {after : List Nat} (hlayout : Layout arena chains free hand)
    (hbucket : bucket < arena.numBuckets) (hchain : chains bucket = index :: after) :
    Layout (arena.withoutHead bucket index) (update chains bucket after) free
      (index :: hand) := by
  have hwalk := hlayout.chain bucket hbucket
  rw [hchain] at hwalk
  have hhead : arena.buckets bucket = some index := hwalk.head_eq
  have hsplit : chains bucket = [] ++ index :: after := hchain
  apply hlayout.detach hbucket hsplit (sameRecords_withoutHead arena bucket index)
  · intro other hother hne
    change Chain arena.link (update arena.buckets bucket _ other) _
    rw [update_of_ne hne]
    exact hlayout.chain other hother
  · change Chain arena.link (update arena.buckets bucket _ bucket) _
    rw [update_self]
    exact (hhead ▸ hwalk).tail
  · exact hlayout.freeChain
  · rfl

theorem Layout.linkedPast {front after : List Nat} {previous : Nat}
    (hlayout : Layout arena chains free hand) (hbucket : bucket < arena.numBuckets)
    (hchain : chains bucket = front ++ [previous] ++ index :: after) :
    Layout (arena.linkedPast previous index)
      (update chains bucket (front ++ [previous] ++ after)) free (index :: hand) := by
  have hwalk := hlayout.chain bucket hbucket
  rw [hchain] at hwalk
  have hmember : previous ∈ chains bucket := by simp [hchain]
  have hlink : (arena.linkedPast previous index).link =
      update arena.link previous (arena.link index) :=
    link_setNext arena previous (arena.link index)
  apply hlayout.detach hbucket hchain (sameRecords_linkedPast arena previous index)
  · intro other hother hne
    rw [hlink]
    apply (hlayout.chain other hother).congr
    intro node hnode
    apply update_of_ne
    rintro rfl
    exact hne ((hlayout.placed other hother _ hnode).1.symm.trans
      (hlayout.placed bucket hbucket _ hmember).1)
  · rw [hlink]
    simp only [append_assoc, singleton_append] at hwalk ⊢
    exact hwalk.unlink
  · rw [hlink]
    apply hlayout.freeChain.congr
    intro node hnode
    apply update_of_ne
    rintro rfl
    exact hlayout.not_mem_chain (mem_append_right hand hnode)
      (mem_allMembers.mpr ⟨bucket, hbucket, hmember⟩)
  · rfl

theorem Layout.unlinkNode {before after : List Nat} (hlayout : Layout arena chains free [])
    (hbucket : bucket < arena.numBuckets) (hchain : chains bucket = before ++ index :: after) :
    ∃ arena', arena.unlinkNode bucket index = some arena' ∧
      Layout arena' (update chains bucket (before ++ after)) (index :: free) [] ∧
      SameRecords arena arena' := by
  have hwalk := hlayout.chain bucket hbucket
  rw [hchain] at hwalk
  have hlength : (before ++ index :: after).length ≤ arena.nodeCount := hchain ▸ hlayout.length_le hbucket
  have hprevious := hwalk.previousFrom hlength none
  rcases eq_nil_or_concat' before with rfl | ⟨front, previous, rfl⟩
  · obtain ⟨hfreed, hsame⟩ := (hlayout.withoutHead hbucket hchain).freeNode
    refine ⟨_, ?_, hfreed, (sameRecords_withoutHead arena bucket index).trans hsame⟩
    simp [Arena.unlinkNode, hprevious, Arena.withoutHead, Arena.freeNode, Arena.setNext, Arena.setNode]
  · obtain ⟨hfreed, hsame⟩ := (hlayout.linkedPast hbucket hchain).freeNode
    refine ⟨_, ?_, hfreed, (sameRecords_linkedPast arena previous index).trans hsame⟩
    simp [Arena.unlinkNode, hprevious, Arena.linkedPast, Arena.freeNode, Arena.setNext, Arena.setNode]

theorem linkNode_nodes (arena : Arena) (index : Nat) (hash : UInt32) (name : Bytes)
    (qtype : UInt16) (now : UInt32) :
    (arena.linkNode index hash name qtype now).nodes =
      update arena.nodes index
        { arena.nodes index with
          hash, qtype, name, uses := 0, storedMs := now
          next := arena.buckets (arena.bucketOf hash) } := by
  rfl

theorem link_linkNode (arena : Arena) (index : Nat) (hash : UInt32) (name : Bytes)
    (qtype : UInt16) (now : UInt32) :
    (arena.linkNode index hash name qtype now).link =
      update arena.link index (arena.buckets (arena.bucketOf hash)) := by
  funext other
  rw [Arena.link, linkNode_nodes]
  by_cases hother : other = index
  · rw [hother, update_self, update_self]
  · rw [update_of_ne hother, update_of_ne hother, Arena.link]

theorem Layout.distinct_linkNode {name : Bytes} {qtype : UInt16} {hash now : UInt32}
    (hlayout : Layout arena chains free hand)
    (hnew : ∀ other ∈ allMembers arena.numBuckets chains,
      ¬ ((arena.nodes other).name = name ∧ (arena.nodes other).qtype = qtype))
    {first second : Nat} (hfirst : first ∈ index :: allMembers arena.numBuckets chains)
    (hsecond : second ∈ index :: allMembers arena.numBuckets chains)
    (hkey : ((arena.linkNode index hash name qtype now).nodes first).key =
      ((arena.linkNode index hash name qtype now).nodes second).key) : first = second := by
  have hself : ((arena.linkNode index hash name qtype now).nodes index).key = (name, qtype) := by
    rw [linkNode_nodes, update_self, Node.key]
  have hold {node : Nat} (hne : node ≠ index) :
      ((arena.linkNode index hash name qtype now).nodes node).key = (arena.nodes node).key := by
    rw [linkNode_nodes, update_of_ne hne]
  have hother {node : Nat} (hmem : node ∈ index :: allMembers arena.numBuckets chains)
      (hne : node ≠ index) : node ∈ allMembers arena.numBuckets chains :=
    (mem_cons.mp hmem).resolve_left hne
  by_cases hone : first = index <;> by_cases htwo : second = index
  · rw [hone, htwo]
  · rw [hone, hself, hold htwo, Node.key, Prod.mk.injEq] at hkey
    exact absurd ⟨hkey.1.symm, hkey.2.symm⟩ (hnew second (hother hsecond htwo))
  · rw [htwo, hself, hold hone, Node.key, Prod.mk.injEq] at hkey
    exact absurd hkey (hnew first (hother hfirst hone))
  · rw [hold hone, hold htwo, Node.key, Node.key, Prod.mk.injEq] at hkey
    exact hlayout.distinct first (hother hfirst hone) second (hother hsecond htwo) hkey.1 hkey.2

theorem Layout.linkNode {name : Bytes} {qtype : UInt16} (now : UInt32)
    (hlayout : Layout arena chains free (index :: hand))
    (hnew : ∀ other ∈ allMembers arena.numBuckets chains,
      ¬ ((arena.nodes other).name = name ∧ (arena.nodes other).qtype = qtype)) :
    Layout (arena.linkNode index (hashName name) name qtype now)
      (update chains (arena.bucketOf (hashName name))
        (index :: chains (arena.bucketOf (hashName name)))) free hand := by
  have hbucket : arena.bucketOf (hashName name) < arena.numBuckets := Nat.mod_lt _ hlayout.numBuckets_pos
  have hlink := link_linkNode arena index (hashName name) name qtype now
  have hfresh : index ∉ allMembers arena.numBuckets chains :=
    hlayout.not_mem_chain (mem_append_left free mem_cons_self)
  have hmembers := allMembers_push_perm hbucket chains index
  constructor
  case chain =>
    intro other hother
    change Chain _ (update arena.buckets (arena.bucketOf (hashName name)) (some index) other) _
    rw [hlink]
    by_cases hsame : other = arena.bucketOf (hashName name)
    · rw [hsame, update_self, update_self]
      apply (hlayout.chain _ hbucket).push
      exact fun hmem ↦ hfresh (mem_allMembers.mpr ⟨_, hbucket, hmem⟩)
    · rw [update_of_ne hsame, update_of_ne hsame]
      exact hlayout.chain_update hfresh _ hother
  case freeChain =>
    rw [hlink]
    apply hlayout.freeChain.congr
    intro node hnode
    apply update_of_ne
    rintro rfl
    exact hlayout.not_mem_free hnode
  case pool =>
    calc
      _ ~ hand ++ (free ++ index :: allMembers arena.numBuckets chains) :=
        (hmembers.append_left free).append_left hand
      _ ~ hand ++ index :: (free ++ allMembers arena.numBuckets chains) := perm_middle.append_left hand
      _ ~ index :: hand ++ (free ++ allMembers arena.numBuckets chains) := perm_middle
      _ ~ _ := hlayout.pool
  case placed =>
    intro other hother node hnode
    rw [linkNode_nodes]
    rcases mem_push hfresh hother hnode with ⟨rfl, rfl⟩ | ⟨hne, hmem⟩
    · rw [update_self]
      exact ⟨rfl, rfl⟩
    · rw [update_of_ne hne]
      exact hlayout.placed other hother node hmem
  case distinct =>
    intro first hfirst second hsecond hname hqtype
    exact hlayout.distinct_linkNode hnew (hmembers.mem_iff.mp hfirst) (hmembers.mem_iff.mp hsecond)
      (Prod.ext hname hqtype)
  case entries =>
    change arena.entries + 1 = _
    rw [hlayout.entries, ← length_cons]
    exact hmembers.length_eq.symm
  case numBuckets_pos => exact hlayout.numBuckets_pos
  case nodeCount_pos => exact hlayout.nodeCount_pos

end DhcpServer.Dns.InternalCache

import Mathlib.Data.List.Forall2
import Recast.Proofs.Text.Edit
import Recast.Target.Packages

/-! Packages and imports of a code in a target language with packages. Their names are replaced in the bytes of the
code, and where they stand is told in characters; both agree with the text, whatever characters are in it. -/
namespace Recast
open Text Encoding

namespace Node
variable {code : Text} {n : Node}

theorem slice_charsWithin (whole : Whole code n.start n.stop) :
    (code.take (charsWithin n.stop code)).drop (charsWithin n.start code) = n.text code := by
  rw [text,bytes,whole.slice_eq,lossy_encode]

theorem bytes_eq (whole : Whole code n.start n.stop) : n.bytes code = encode (n.text code) := by
  rw [bytes,whole.slice_eq,slice_charsWithin whole]

theorem strict?_bytes (whole : Whole code n.start n.stop) : strict? (n.bytes code) = some (n.text code) := by
  rw [bytes_eq whole,strict?_encode]

/-- The tree lies on a code: declarations and their names begin and end between characters, a name is a part of
its declaration, and no declaration overlaps another one. -/
structure Laid (code : Text) (root : Node) : Prop where
  whole : ∀ d ∈ root.declarations, Whole code d.start d.stop
  named : ∀ d ∈ root.declarations, ∀ n, d.nameNode? = some n →
    Whole code n.start n.stop ∧ d.start ≤ n.start ∧ n.stop ≤ d.stop
  apart : root.declarations.Pairwise fun d e => d.stop ≤ e.start ∨ e.stop ≤ d.start

end Node

namespace Target
variable {code space : Text} {index : NameIndex} {root d : Node}

/-- The new name of a declaration, if it has a name, in the place of the old one. -/
def renewal? (code space : Text) (index : NameIndex) (d : Node) : Option (Edit UInt8) :=
  d.nameNode?.map fun n => ⟨n.start,n.stop,encode (declaredName space index d (n.text code))⟩

def renewals (code space : Text) (index : NameIndex) (root : Node) : List (Edit UInt8) :=
  root.declarations.filterMap (renewal? code space index)

/-- A replacement puts other bytes in the place of those of the code. -/
def changes (code : Text) (e : Edit UInt8) : Bool := ((encode code).take e.stop).drop e.start != e.text

/-- A declaration gives a replacement if its name has to change. -/
theorem declarationEdit?_eq (named : ∀ n, d.nameNode? = some n → Whole code n.start n.stop) :
    declarationEdit? code space index d = some ((renewal? code space index d).toList.filter (changes code)) := by
  unfold declarationEdit? renewal?
  cases found : d.nameNode? with
  | none => rfl
  | some n =>
    have whole := named n found
    have bytes : ((encode code).take n.stop).drop n.start = encode (n.text code) := Node.bytes_eq whole
    simp only [Node.strict?_bytes whole,Option.map_some,Option.toList_some]
    by_cases same : declaredName space index d (n.text code) = n.text code
    · rw [if_pos same,List.filter_cons_of_neg (by simp [changes,bytes,same]),List.filter_nil]
    · have other : changes code ⟨n.start,n.stop,encode (declaredName space index d (n.text code))⟩ = true := by
        rw [changes,bytes,bne_iff_ne]
        exact fun equal => same (encode_injective equal).symm
      rw [if_neg same,List.filter_cons_of_pos other,List.filter_nil]

theorem mapM_declarationEdit? (space : Text) (index : NameIndex) (ds : List Node)
    (named : ∀ d ∈ ds, ∀ n, d.nameNode? = some n → Whole code n.start n.stop) :
    ds.mapM (declarationEdit? code space index) =
      some (ds.map fun d => (renewal? code space index d).toList.filter (changes code)) := by
  induction ds with
  | nil => rfl
  | cons d ds ih =>
    rw [List.mapM_cons,declarationEdit?_eq (named d (by simp)),ih fun e member => named e (by simp [member])]
    rfl

theorem flatten_renewals (code space : Text) (index : NameIndex) (root : Node) : (root.declarations.map fun d =>
    (renewal? code space index d).toList.filter (changes code)).flatten =
      (renewals code space index root).filter (changes code) := by
  rw [renewals,List.filterMap_eq_flatMap_toList,List.filter_flatMap,List.flatMap]

section Laid
variable (laid : root.Laid code)
include laid

theorem whole_of_mem_renewals : ∀ e ∈ renewals code space index root, Whole code e.start e.stop := by
  intro e member
  obtain ⟨d,inside,made⟩ := List.mem_filterMap.1 member
  obtain ⟨n,found,rfl⟩ := Option.map_eq_some_iff.1 made
  exact (laid.named d inside n found).1

theorem pairwise_renewals : (renewals code space index root).Pairwise Edit.Apart := by
  refine List.pairwise_filterMap.2 (laid.apart.imp_of_mem fun {d e} left right apart a made b given => ?_)
  obtain ⟨n,found,rfl⟩ := Option.map_eq_some_iff.1 made
  obtain ⟨m,seen,rfl⟩ := Option.map_eq_some_iff.1 given
  have first := (laid.named d left n found).2
  have second := (laid.named e right m seen).2
  unfold Edit.Apart
  dsimp only
  omega

/-- There is a text in which all names are replaced, and the replacements lead to it one by one. -/
theorem exists_renewed (space : Text) (index : NameIndex) :
    ∃ edits result, edits.Perm (renewals code space index root) ∧ Edit.Replaced 0 edits code result ∧
    Edit.applyAll ((renewals code space index root).filter (changes code)) (encode code) = encode result := by
  let edits := Edit.ascending (renewals code space index root)
  have perm : edits.Perm (renewals code space index root) := Edit.ascending_perm _
  have whole : ∀ e ∈ edits, Whole code e.start e.stop := fun e member =>
    whole_of_mem_renewals laid e (perm.mem_iff.1 member)
  have order : edits.Pairwise fun a b => a.stop ≤ b.start :=
    Edit.pairwise_ascending (pairwise_renewals laid) fun e member => (whole_of_mem_renewals laid e member).le
  have texts : ∀ e ∈ edits, ∃ new, e.text = encode new := by
    intro e member
    obtain ⟨d,_,made⟩ := List.mem_filterMap.1 (perm.mem_iff.1 member)
    obtain ⟨n,_,rfl⟩ := Option.map_eq_some_iff.1 made
    exact ⟨_,rfl⟩
  obtain ⟨result,replaced⟩ := Edit.exists_replaced [] order (fun e _ => Nat.zero_le _) whole texts
  refine ⟨edits,result,perm,replaced,?_⟩
  rw [Edit.applyAll_eq,← Edit.ascending_filter]
  refine Edit.foldr_filter_encode (changes code) replaced [] rfl fun e _ same => ?_
  simpa [changes] using same

end Laid

/-- What the replacements lead to is the new code, with a package in front where one is missing. -/
theorem repackage_eq {tree : Text → Node} {own : Option Entry} {result : Text} (laid : (tree code).Laid code)
    (applied : Edit.applyAll ((renewals code ((own.map Entry.space).getD []) index (tree code)).filter
      (changes code)) (encode code) = encode result) :
    let space := (own.map Entry.space).getD []
    repackage tree code own index = some (if space.isEmpty ||
      (tree code).declarations.any fun d => d.isPackage && d.nameNode?.isSome
        then result else packagePreamble space ++ result) := by
  intro space
  have each := mapM_declarationEdit? space index (tree code).declarations
    fun d member n found => (laid.named d member n found).1
  have unfolded : repackage tree code own index =
      ((tree code).declarations.mapM (declarationEdit? code space index)).bind fun edits =>
        (strict? (Edit.applyAll edits.flatten (encode code))).bind fun result =>
          some (if space.isEmpty || (tree code).declarations.any fun d => d.isPackage && d.nameNode?.isSome
            then result else packagePreamble space ++ result) := rfl
  rw [unfolded,each,Option.bind_some,flatten_renewals code space index (tree code),applied,strict?_encode,
    Option.bind_some]

theorem any_named_eq_false_iff {ds : List Node} :
    (ds.any fun d => d.isPackage && d.nameNode?.isSome) = false ↔
      ∀ d ∈ ds, d.isPackage = true → d.nameNode? = none := by
  simp only [List.any_eq_false,Bool.and_eq_true,Option.isSome_iff_ne_none,not_and,ne_eq,not_not]

/-- In a code on which a tree lies, the names of its declarations are replaced all at once and nothing else: the
name of a package by the namespace of the file, if that is not empty, and an imported name by its new form. A file
with a namespace in which no package has a name gets a package in front. The places of the declarations, counted in
characters, are those of their texts. -/
theorem repackage_replaces (tree : Text → Node) (code : Text) (own : Option Entry) (index : NameIndex)
    (laid : (tree code).Laid code) :
    let ds := (tree code).declarations
    let space := (own.map Entry.space).getD []
    (∀ d ∈ ds, strict? (d.bytes code) = some (d.text code) ∧
      ∀ n, d.nameNode? = some n → strict? (n.bytes code) = some (n.text code)) ∧
    (∃ edits result, edits.Perm (renewals code space index (tree code)) ∧ Edit.Replaced 0 edits code result ∧
      (packages tree).restructure code own index =
        some (if space ≠ [] ∧ ∀ d ∈ ds, d.isPackage = true → d.nameNode? = none
          then "package " ++ space ++ ";\n\n" ++ result else result)) ∧
    ∃ spans, (packages tree).spans code = some spans ∧
      List.Forall₂ (fun d s => (code.take s.2).drop s.1 = d.text code) ds spans := by
  intro ds space
  refine ⟨fun d member => ⟨Node.strict?_bytes (laid.whole d member),fun n found =>
    Node.strict?_bytes (laid.named d member n found).1⟩,?_,_,rfl,?_⟩
  · obtain ⟨edits,result,perm,replaced,applied⟩ := exists_renewed laid space index
    refine ⟨edits,result,perm,replaced,?_⟩
    change repackage tree code own index = _
    rw [repackage_eq laid applied,Option.some_inj]
    by_cases needed : space ≠ [] ∧ ∀ d ∈ ds, d.isPackage = true → d.nameNode? = none
    · have off : ¬(space.isEmpty || false) = true := by simp [needed.1]
      rw [if_pos needed,any_named_eq_false_iff.2 needed.2,if_neg off]
      rfl
    · rw [if_neg needed,if_pos ?_]
      by_contra added
      rw [Bool.or_eq_true,not_or,Bool.not_eq_true,Bool.not_eq_true] at added
      exact needed ⟨by simpa using added.1,any_named_eq_false_iff.1 added.2⟩
  · exact List.forall₂_map_right_iff.2 (List.forall₂_same.2 fun d member =>
      Node.slice_charsWithin (laid.whole d member))

/-- Two bytes of a comment are one character, and two of an imported name. -/
theorem repackage_replaces_oil :
    let code : Text := "/*é*/package a;\nimport b.Öl;\n"
    let renamed : Text := "/*é*/package shop;\nimport shop.Oil;\n"
    let leaf (kind : Text) (start stop : Nat) : Node := ⟨kind,start,stop,0,true,false,false,none,[]⟩
    let package : Node := ⟨"package_declaration",6,16,0,true,false,false,none,[leaf "identifier" 14 15]⟩
    let import_ : Node :=
      ⟨"import_declaration",17,30,1,true,false,false,none,[leaf "scoped_identifier" 24 29]⟩
    let tree : Text → Node := fun _ =>
      ⟨"program",0,31,0,true,false,false,none,[leaf "block_comment" 0 6,package,import_]⟩
    let e : Entry := ⟨"Öl","Oil","shop","Oil.java","shop/Oil.java"⟩
    let index : NameIndex := ⟨[⟨e,[]⟩],true⟩
    (tree code).Laid code ∧
      (∃ edits, edits.Perm [⟨14,15,encode "shop"⟩,⟨24,29,encode "shop.Oil"⟩] ∧
        Edit.Replaced 0 edits code renamed) ∧
      (packages tree).restructure code (some e) index = some renamed ∧
      ∃ first last, (packages tree).spans code = some [first,last] ∧
        (code.take last.2).drop last.1 = "import b.Öl;".toList := by
  intro code renamed leaf package import_ tree e index
  have declared : (tree code).declarations = [package,import_] := rfl
  have laid : (tree code).Laid code := by
    constructor
    · rw [declared]
      intro d member
      rcases List.mem_pair.1 member with rfl | rfl
      · exact ⟨"/*é*/","package a;","\nimport b.Öl;\n",by decide +kernel,by decide +kernel,by decide +kernel⟩
      · exact ⟨"/*é*/package a;\n","import b.Öl;","\n",by decide +kernel,by decide +kernel,by decide +kernel⟩
    · rw [declared]
      intro d member n found
      rcases List.mem_pair.1 member with rfl | rfl
      · have named : package.nameNode? = some (leaf "identifier" 14 15) := rfl
        cases named.symm.trans found
        exact ⟨⟨"/*é*/package ","a",";\nimport b.Öl;\n",by decide +kernel,by decide +kernel,by decide +kernel⟩,
          by decide,by decide⟩
      · have named : import_.nameNode? = some (leaf "scoped_identifier" 24 29) := rfl
        cases named.symm.trans found
        exact ⟨⟨"/*é*/package a;\nimport ","b.Öl",";\n",by decide +kernel,by decide +kernel,by decide +kernel⟩,
          by decide,by decide⟩
    · rw [declared]
      simp [package,import_]
  obtain ⟨_,⟨edits,result,perm,replaced,answer⟩,spans,told,slices⟩ :=
    repackage_replaces tree code (some e) index laid
  have made : (packages tree).restructure code (some e) index = some renamed := by decide +kernel
  have both : renewals code "shop" index (tree code) =
      [⟨14,15,encode "shop"⟩,⟨24,29,encode "shop.Oil"⟩] := by decide +kernel
  have ended : result = renamed := by
    rw [if_neg fun missing => ?_,made] at answer
    · exact (Option.some_inj.1 answer).symm
    · have nameless := missing.2 package (by rw [declared]; simp) rfl
      cases nameless
  rw [declared,List.forall₂_cons_left_iff] at slices
  obtain ⟨first,_,_,rest,rfl⟩ := slices
  rw [List.forall₂_cons_left_iff] at rest
  obtain ⟨last,_,slice,rest,rfl⟩ := rest
  cases rest
  exact ⟨laid,⟨edits,both ▸ perm,ended ▸ replaced⟩,made,first,last,told,slice.trans (by decide +kernel)⟩

end Target

end Recast

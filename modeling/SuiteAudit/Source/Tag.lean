import SuiteAudit.Source.Complexity
import SuiteAudit.Text.CaseMap

/-! # Tags

A tag is given to a text that holds one of its keywords, whatever the case of the letters.
-/

namespace SuiteAudit

/-- A tag with its keywords, in lower case. -/
structure Keywords where
  tag : Text
  words : List Text

namespace Keywords

/-- The parts of an application that a test may be about. -/
def domains : List Keywords :=
  [⟨"authentication", ["login", "登录"]⟩,
   ⟨"registration", ["register", "注册"]⟩,
   ⟨"pet-management", ["pet", "宠物"]⟩,
   ⟨"analysis", ["analysis", "分析"]⟩,
   ⟨"file-upload", ["upload", "上传"]⟩,
   ⟨"community", ["community", "社区"]⟩]

/-- The kinds of test. -/
def kinds : List Keywords :=
  [⟨"error-handling", ["error", "错误"]⟩,
   ⟨"performance", ["performance", "性能"]⟩,
   ⟨"visual", ["screenshot", "视觉"]⟩]

/-- The tags with a keyword in a text of lower case. -/
def tagsIn (table : List Keywords) (lowered : Text) : List Text :=
  (table.filter fun k => k.words.any (Text.contains lowered)).map (·.tag)

end Keywords

/-- The parts of the application that a text mentions. -/
def featuresOf (content : Text) : List Text := Keywords.tagsIn Keywords.domains (Text.lower content)

/-- The tags of a test case: the parts of the application, its complexity, its kinds. -/
def tagsOf (name content : Text) (complexity : Complexity) : List Text :=
  let lowered := Text.lower (name ++ "\n" ++ content)
  featuresOf lowered ++ ["complexity-" ++ complexity.level.name] ++
    Keywords.tagsIn Keywords.kinds lowered

end SuiteAudit

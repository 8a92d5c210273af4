/-!
The options of a conversion.
-/

namespace WikiDocs

/-- How a conversion reads its input and names what it writes. -/
structure Options where
  /-- Whether a backslash with an `n` after it is read as a line break. -/
  expandEscapes : Bool := true
  imageDirectory : String := "images/"
  sourceExtension : String := ".rst"
  /-- The extension of what the build script makes of them. -/
  renderedExtension : String := ".html"
  renderCommand : String := "rst2html.py"
  scriptName : String := "make.sh"
  /-- The first line of the build script, if it has one of its own. -/
  scriptHeader : Option String := some "#!/bin/bash"
  /-- The title of the document that takes the text before the first page break. -/
  firstTitle : Option String := none
  /-- Whether a character beyond Latin-1 in a document is an error. -/
  strictLatin1 : Bool := false
  traceTokens : Bool := false
  deriving DecidableEq

namespace Options

/-- The title of the first document where nothing better is known. -/
def defaultTitle : String := "index"

def withFirstTitle (options : Options) (title : String) : Options :=
  { options with firstTitle := some title }

def withImageDirectory (options : Options) (directory : String) : Options :=
  { options with imageDirectory := directory }

def keepEscapes (options : Options) : Options := { options with expandEscapes := false }

def strict (options : Options) : Options := { options with strictLatin1 := true }

def trace (options : Options) : Options := { options with traceTokens := true }

end Options
end WikiDocs

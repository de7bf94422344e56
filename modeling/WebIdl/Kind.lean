namespace WebIdl

inductive Kind where
  | interface
  | interfaceMixin
  | namespaceObject
  | callbackInterface
  | callbackFunction
  | dictionary
  | enumeration
  | typedef
deriving DecidableEq, Repr

namespace Kind

def all : List Kind :=
  [.interface, .interfaceMixin, .namespaceObject, .callbackInterface, .callbackFunction,
    .dictionary, .enumeration, .typedef]

def text : Kind → String
  | .interface => "interface"
  | .interfaceMixin => "interface mixin"
  | .namespaceObject => "namespace"
  | .callbackInterface => "callback interface"
  | .callbackFunction => "callback function"
  | .dictionary => "dictionary"
  | .enumeration => "enumeration"
  | .typedef => "typedef"

def ofText? (text : String) : Option Kind := all.find? (·.text == text)

def textWithArticle (kind : Kind) : String :=
  match kind with
  | .interface | .interfaceMixin | .enumeration => "an " ++ kind.text
  | _ => "a " ++ kind.text

def allowsPartial : Kind → Bool
  | .interface | .interfaceMixin | .namespaceObject | .dictionary => true
  | _ => false

end Kind

end WebIdl

import CartGraph.Catalogue.Basic

/-!
# The palette's view of node types

What the editor is told about pins, properties and definitions.
-/
namespace CartGraph

def Pin.toValue (p : Pin) : Value := .object [
  ("id", .text p.id),
  ("name", .text p.label),
  ("kind", .text p.kind.name),
  ("direction", .text p.direction.name),
  ("defaultValue", p.default),
  ("description", .text p.description),
  ("required", .bool p.required)]

def Property.toValue (p : Property) : Value := .object [
  ("key", .text p.key),
  ("label", .text p.label),
  ("type", .text p.type.name),
  ("defaultValue", p.default),
  ("options", .list p.options),
  ("placeholder", .text p.placeholder)]

def Definition.toValue (d : Definition) (entryPoint : Bool) : Value := .object [
  ("id", .text d.id),
  ("title", .text d.title),
  ("category", .text d.category),
  ("description", .text d.description),
  ("searchTags", .texts d.tags),
  ("unique", .bool d.unique),
  ("entryPoint", .bool entryPoint),
  ("inputs", .list (d.inputs.map Pin.toValue)),
  ("outputs", .list (d.outputs.map Pin.toValue)),
  ("properties", .list (d.properties.map Property.toValue))]

def NodeType.toValue (t : NodeType) : Value := t.definition.toValue t.isEntryPoint

end CartGraph
